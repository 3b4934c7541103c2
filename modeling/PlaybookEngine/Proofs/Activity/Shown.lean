import PlaybookEngine.Proofs.Activity.Assurance

namespace PlaybookEngine

/-- The requests of an interface, each with what the asker is at. -/
def Interface.Shown (I : Interface) (X : Type) : Interface :=
  ⟨X × I.Request, fun r => I.Reply r.2⟩

/-- Requests that keep to `P`, with any replies. -/
def Interface.within {I : Interface} (P : I.Request → Prop) : I.Spec Unit :=
  fun v r K => P r ∧ ∀ x, K x v

theorem Interface.within_mono {I : Interface} (P : I.Request → Prop) : (within P).Mono :=
  fun _ _ _ _ hK h => ⟨h.1, fun x => hK x _ (h.2 x)⟩

namespace Activity

variable {I J : Interface} {X α β : Type}

/-- While the activity lasts, the asker is at one thing. -/
def during (x : X) (p : Activity I α) : Activity (I.Shown X) α :=
  p.through (J := I.Shown X) (fun r => (x, r)) fun _ y => y

/-- The activity without what its requests show. -/
def plain (p : Activity (I.Shown X) α) : Activity I α :=
  p.through (I := I.Shown X) (J := I) (fun r : X × I.Request => r.2) fun _ y => y

theorem plain_bind (p : Activity (I.Shown X) α) (f : α → Activity (I.Shown X) β) :
    (p >>= f).plain = p.plain >>= fun a => (f a).plain :=
  through_bind ..

theorem plain_during (x : X) (p : Activity I α) : (p.during x).plain = p := by
  induction p with
  | done a => rfl
  | ask r next ih => exact congrArg (ask r) (funext ih)

/-- Every request that the activity can come to keeps to `P`, and its result to `Q`. -/
def Abides (P : I.Request → Prop) (Q : α → Prop) (p : Activity I α) : Prop :=
  p.Assures (Interface.within P) () fun a _ => Q a

variable {P P' : I.Request → Prop} {Q Q' : α → Prop}

theorem abides_request_bind {r : I.Request} {f : I.Reply r → Activity I α} :
    (request r >>= f).Abides P Q ↔ P r ∧ ∀ x, (f x).Abides P Q := Iff.rfl

theorem abides_bind {p : Activity I α} {f : α → Activity I β} {Q : β → Prop} :
    (p >>= f).Abides P Q ↔ p.Abides P fun a => (f a).Abides P Q :=
  assures_bind ..

/-- What every result keeps to needs nothing of the requests. -/
theorem abides_all (hQ : ∀ a, Q a) (p : Activity I α) : p.Abides (fun _ => True) Q := by
  induction p with
  | done a => exact hQ a
  | ask r next ih => exact ⟨trivial, ih⟩

theorem Abides.mono {p : Activity I α} (h : p.Abides P Q) (hQ : ∀ a, Q a → Q' a) :
    p.Abides P Q' :=
  Assures.mono (Interface.within_mono P) h fun a _ => hQ a

theorem Abides.mono_requests {p : Activity I α} (h : p.Abides P Q) (hP : ∀ r, P r → P' r) :
    p.Abides P' Q := by
  induction p with
  | done a => exact h
  | ask r next ih => exact ⟨hP r h.1, fun x => ih x (h.2 x)⟩

theorem Abides.through {P : J.Request → Prop} {send : I.Request → J.Request}
    {receive : (r : I.Request) → J.Reply (send r) → I.Reply r} {p : Activity I α}
    (h : p.Abides (fun r => P (send r)) Q) : (p.through send receive).Abides P Q :=
  assures_through (Interface.within_mono _) (fun _ _ _ hK => ⟨hK.1, fun _ => hK.2 _⟩) h

theorem Abides.during {P : (I.Shown X).Request → Prop} {x : X} {p : Activity I α}
    (h : p.Abides (fun r => P (x, r)) Q) : (p.during x).Abides P Q :=
  h.through

end Activity

end PlaybookEngine
