import PlaybookEngine.Proofs.Activity.Run
import PlaybookEngine.Proofs.Activity.Shown

namespace PlaybookEngine.Activity

variable {I J : Interface} {W α β : Type}

/-- After some requests, answered at whatever times, this is left of the activity. -/
inductive ComesTo (s : Surroundings I W) : Activity I α → W → Activity I α → W → Prop
  | here (p : Activity I α) (w : W) : ComesTo s p w p w
  | ask {r : I.Request} {next : I.Reply r → Activity I α} {w w' : W} {q : Activity I α}
    (now : Instant) (later : ComesTo s (next (s now r w).reply) (s now r w).world q w') :
    ComesTo s (.ask r next) w q w'

/-- What is left of the activity after as many requests as there are times, and the world then. -/
def answered (s : Surroundings I W) : List Instant → Activity I α → W → Activity I α × W
  | now :: times, .ask r next, w =>
    let x := s now r w
    answered s times (next x.reply) x.world
  | _, p, w => (p, w)

variable {s : Surroundings I W} {w w' : W}

theorem comesTo_answered (times : List Instant) (p : Activity I α) (w : W) :
    ComesTo s p w (answered s times p w).1 (answered s times p w).2 := by
  induction times generalizing p w with
  | nil => exact .here p w
  | cons now times ih =>
    cases p with
    | done a => exact .here _ w
    | ask r next => exact .ask now (ih _ _)

theorem ComesTo.of_done {a : α} {q : Activity I α} (h : ComesTo s (.done a) w q w') :
    q = .done a ∧ w' = w := by
  cases h
  exact ⟨rfl, rfl⟩

theorem ComesTo.not_waiting {a : α} {r : I.Request} {next : I.Reply r → Activity I α} :
    ¬ ComesTo s (.done a) w (.ask r next) w' := by
  intro h
  obtain ⟨hdone, -⟩ := h.of_done
  cases hdone

theorem comesTo_run (p : Activity I α) (now : Instant) (w : W) :
    ComesTo s p w (.done (p.run s now w).1) (p.run s now w).2.2 := by
  induction p generalizing now w with
  | done a => exact .here _ w
  | ask r next ih => exact .ask now (ih _ _ _)

theorem ComesTo.of_request {r : I.Request} {f : I.Reply r → Activity I β} {q : Activity I β}
    (h : ComesTo s (request r >>= f) w q w') :
    (q = request r >>= f ∧ w' = w) ∨
      ∃ now, ComesTo s (f (s now r w).reply) (s now r w).world q w' := by
  change ComesTo s (.ask r f) w q w' at h
  cases h with
  | here => exact .inl ⟨rfl, rfl⟩
  | ask now later => exact .inr ⟨now, later⟩

/-- What is still waiting has not left the first of two activities, or it has come to the end of the
first one and is partway in the second. -/
theorem ComesTo.of_bind {p : Activity I α} {f : α → Activity I β} {r : I.Request}
    {next : I.Reply r → Activity I β} (h : ComesTo s (p >>= f) w (.ask r next) w') :
    (∃ next', ComesTo s p w (.ask r next') w') ∨
      ∃ a w₁, ComesTo s p w (.done a) w₁ ∧ ComesTo s (f a) w₁ (.ask r next) w' := by
  change ComesTo s (p.bind f) w _ w' at h
  induction p generalizing w with
  | done a => exact .inr ⟨a, w, .here _ w, h⟩
  | ask r' next' ih =>
    cases h with
    | here => exact .inl ⟨next', .here _ _⟩
    | ask now later =>
      rcases ih _ later with ⟨next₁, first⟩ | ⟨a, w₁, first, second⟩
      · exact .inl ⟨next₁, .ask now first⟩
      · exact .inr ⟨a, w₁, .ask now first, second⟩

/-- Partway in an activity that asks through another interface: what its own surroundings have come
to shows in the others. -/
theorem ComesTo.of_through {V : Type} {inner : Surroundings I V} {outer : Surroundings J W}
    {send : I.Request → J.Request} {receive : (r : I.Request) → J.Reply (send r) → I.Reply r}
    (put : V → W) (hreply : ∀ now r v,
      receive r (outer now (send r) (put v)).reply = (inner now r v).reply)
    (hworld : ∀ now r v, (outer now (send r) (put v)).world = put (inner now r v).world)
    {p : Activity I α} {v : V} {q : Activity J α}
    (h : ComesTo outer (p.through send receive) (put v) q w') :
    ∃ p' v', q = p'.through send receive ∧ ComesTo inner p v p' v' ∧ w' = put v' := by
  induction p generalizing v with
  | done a =>
    obtain ⟨rfl, rfl⟩ := h.of_done
    exact ⟨.done a, v, rfl, .here _ _, rfl⟩
  | ask r next ih =>
    cases h with
    | here => exact ⟨.ask r next, v, rfl, .here _ _, rfl⟩
    | ask now later =>
      dsimp only at later
      rw [hreply, hworld] at later
      obtain ⟨p', v', rfl, hp, rfl⟩ := ih _ later
      exact ⟨p', v', rfl, .ask now hp, rfl⟩

/-- Partway, the requests to come still keep to what all of them keep to. -/
theorem ComesTo.abides {P : I.Request → Prop} {Q : α → Prop} {p q : Activity I α}
    (h : ComesTo s p w q w') (hp : p.Abides P Q) : q.Abides P Q := by
  induction h with
  | here p w => exact hp
  | ask now later ih => exact ih (hp.2 _)

theorem Abides.run {P : I.Request → Prop} {Q : α → Prop} {p : Activity I α} (h : p.Abides P Q)
    (s : Surroundings I W) (now : Instant) (w : W) : Q (p.run s now w).1 :=
  (comesTo_run p now w).abides h

end PlaybookEngine.Activity
