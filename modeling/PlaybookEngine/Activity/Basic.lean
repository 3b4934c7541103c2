namespace PlaybookEngine

/-- Requests, and the kind of reply to each. -/
structure Interface where
  Request : Type
  Reply : Request → Type

/-- An activity is done, or it asks for something and goes on with whatever reply comes. -/
inductive Activity (I : Interface) (α : Type) : Type
  | done (a : α)
  | ask (r : I.Request) (next : I.Reply r → Activity I α)

namespace Activity

variable {I J : Interface} {α β γ : Type}

def bind : Activity I α → (α → Activity I β) → Activity I β
  | .done a, f => f a
  | .ask r next, f => .ask r fun x => (next x).bind f

instance : Monad (Activity I) where
  pure := .done
  bind := bind

theorem bind_done (p : Activity I α) : p.bind .done = p := by
  induction p with
  | done a => rfl
  | ask r next ih => simp [bind, ih]

theorem bind_assoc (p : Activity I α) (f : α → Activity I β) (g : β → Activity I γ) :
    (p.bind f).bind g = p.bind fun a => (f a).bind g := by
  induction p with
  | done a => rfl
  | ask r next ih => simp [bind, ih]

instance : LawfulMonad (Activity I) := LawfulMonad.mk' (Activity I)
  (fun p => bind_done p) (fun _ _ => rfl) (fun p f g => bind_assoc p f g)

/-- Asks once and is done with the reply. -/
def request (r : I.Request) : Activity I (I.Reply r) := .ask r .done

/-- Makes the requests of an interface through another one. -/
def through (send : I.Request → J.Request)
    (receive : (r : I.Request) → J.Reply (send r) → I.Reply r) :
    Activity I α → Activity J α
  | .done a => .done a
  | .ask r next => .ask (send r) fun x => (next (receive r x)).through send receive

theorem through_bind (send : I.Request → J.Request)
    (receive : (r : I.Request) → J.Reply (send r) → I.Reply r) (p : Activity I α)
    (f : α → Activity I β) :
    (p.bind f).through send receive
      = (p.through send receive).bind fun a => (f a).through send receive := by
  induction p with
  | done a => rfl
  | ask r next ih => simp [bind, through, ih]

/-- What is left of an activity after one request. -/
inductive Child : Activity I α → Activity I α → Prop
  | mk (r : I.Request) (next : I.Reply r → Activity I α) (x : I.Reply r) :
    Child (next x) (.ask r next)

/-- What is left after some requests. -/
abbrev Below : Activity I α → Activity I α → Prop := Relation.TransGen Child

theorem child_wf : WellFounded (Child : Activity I α → Activity I α → Prop) :=
  ⟨fun p => by
    induction p with
    | done a => exact ⟨_, fun q h => nomatch h⟩
    | ask r next ih => exact ⟨_, fun q h => by cases h with | mk _ _ x => exact ih x⟩⟩

theorem below_wf : WellFounded (Below : Activity I α → Activity I α → Prop) := child_wf.transGen

end Activity

end PlaybookEngine
