import PlaybookEngine.Proofs.Activity.Shown
import PlaybookEngine.Proofs.Batch.Assurance

namespace PlaybookEngine

namespace Activity

variable {I : Interface} {W α : Type}

inductive Comes (s : Surroundings I W) : Activity I α → Instant → Pause I α → Instant → Prop
  | here {p : Activity I α} {t : Instant} {x : Pause I α} (w : W)
    (pause : (p.advance s t w).1 = x) : Comes s p t x t
  | onward {p q : Activity I α} {t t' wake : Instant} {x : Pause I α} (w : W)
    (blocked : (p.advance s t w).1 = .blocked wake q) (later : Comes s q (max t wake) x t') :
    Comes s p t x t'

variable {s : Surroundings I W} {p q : Activity I α} {t t' wake : Instant} {x : Pause I α}

theorem Comes.snoc (h : Comes s p t (.blocked wake q) t') {w : W}
    (pause : (q.advance s (max t' wake) w).1 = x) : Comes s p t x (max t' wake) := by
  generalize hy : Pause.blocked wake q = y at h
  induction h with
  | here w' blocked => exact .onward w' (blocked.trans hy.symm) (.here w pause)
  | onward w' blocked _ ih => exact .onward w' blocked (ih pause hy)

/-- What is left keeps to `P`, and its result to `Q`. -/
def PauseAbides (P : I.Request → Prop) (Q : α → Prop) : Pause I α → Prop
  | .ended a => Q a
  | .blocked _ q => q.Abides P Q

variable {P : I.Request → Prop} {Q : α → Prop}

theorem Abides.advance (h : p.Abides P Q) (t : Instant) (w : W) :
    PauseAbides P Q (p.advance s t w).1 := by
  induction p generalizing w with
  | done a => exact h
  | ask r next ih =>
    unfold Activity.advance
    dsimp only
    split
    · exact ih _ (h.2 _) _
    · exact h.2 _

theorem Comes.abides (h : Comes s p t x t') (hp : p.Abides P Q) : PauseAbides P Q x := by
  induction h with
  | here w pause =>
    rw [← pause]
    exact hp.advance _ w
  | @onward p q t t' wake x w blocked _ ih =>
    have left := hp.advance (s := s) t w
    rw [blocked] at left
    exact ih left

end Activity

namespace Batch

variable {I : Interface} {W : Type}

/-- What happens to an item. -/
inductive Happening
  /-- Its activity begins. -/
  | started
  /-- Its activity ends. -/
  | finished (r : ItemResult)
  /-- Its time is up; its activity is given up, if it had begun. -/
  | timedOut (limit : Span)
  /-- Its limit is beyond the clock; its task panics before its activity begins. -/
  | crashed

structure Event where
  time : Instant
  item : Nat
  what : Happening

def Event.isStart (e : Event) : Bool :=
  match e.what with
  | .started => true
  | _ => false

def eventsOf (h : List Event) (i : Nat) : List Event := h.filter (·.item == i)

/-- An item with these events is in progress: it was started, and nothing happened to it since. -/
def underway (own : List Event) : Bool := own.getLast?.any Event.isStart

/-- How many of the first `n` items are in progress. -/
def inProgress (n : Nat) (h : List Event) : Nat :=
  (List.range n).countP fun i => underway (eventsOf h i)

/-- When the time of an item is up that is started at `t`. -/
def limitFrom (settings : BatchSettings) (deadline t : Instant) : Instant :=
  min (t + settings.itemTimeout) deadline

/-- The limit that applies to an item whose time is up at `t`. -/
def limitAt (settings : BatchSettings) (deadline t : Instant) : Span :=
  if t = deadline then settings.batchTimeout else settings.itemTimeout

namespace State

variable (settings : BatchSettings) (deadline : Instant) (s : Surroundings I W)

def proceedEvents (st : State I W) (i : Nat) (limit : Due) (span : Span)
    (p : Activity I ItemResult) : List Event :=
  match (p.advance s st.now st.world).1 with
  | .ended r => [⟨st.now, i, .finished r⟩]
  | .blocked _ _ => if limit.time ≤ st.now then [⟨st.now, i, .timedOut span⟩] else []

def startEvents (st : State I W) (i : Nat) (p : Activity I ItemResult) : List Event :=
  if st.now + settings.itemTimeout < Instant.clockEnd then
    let limit := limitFrom settings deadline st.now
    ⟨st.now, i, .started⟩ ::
      proceedEvents s st i ⟨limit, st.turns + 1⟩ (limitAt settings deadline limit) p
  else [⟨st.now, i, .crashed⟩]

def enterEvents (st : State I W) (p : Activity I ItemResult) : List Event :=
  let i := st.items.length
  if 0 < st.free then startEvents settings deadline s st i p
  else if deadline ≤ st.now then [⟨st.now, i, .timedOut settings.batchTimeout⟩]
  else []

def resumeEvents (st : State I W) (i : Nat) : List Event :=
  match st.items[i]? with
  | some (.admitted p) => startEvents settings deadline s st i p
  | some (.waiting _ _) => [⟨st.now, i, .timedOut settings.batchTimeout⟩]
  | some (.asleep wake limit span p) =>
    if wake.time ≤ st.now then proceedEvents s st i limit span p
    else [⟨st.now, i, .timedOut span⟩]
  | _ => []

def nextEvents (st : State I W) : List Event :=
  match st.await.ready with
  | [] => []
  | i :: _ => resumeEvents settings deadline s st.await i

def enterAllEvents (st : State I W) : List (Activity I ItemResult) → List Event
  | [] => []
  | p :: ps =>
    enterEvents settings deadline s st p ++ enterAllEvents (st.enter settings deadline s p) ps

def completeEvents (st : State I W) : List Event :=
  match _h : next? settings deadline s st with
  | none => []
  | some st' => nextEvents settings deadline s st ++ completeEvents st'
termination_by WellFounded.wrap (shrinks_wf less_wf) st.rests
decreasing_by exact next?_shrinks settings deadline s ‹_›

end State

/-- All that happens in `process`, in order. -/
def history (settings : BatchSettings) (s : Surroundings I W)
    (items : List (Activity I ItemResult)) (now : Instant) (w : W) : List Event :=
  let deadline := now + settings.batchTimeout
  let init : State I W := ⟨[], [], [], max settings.concurrency 1, 0, now, w⟩
  State.enterAllEvents settings deadline s init items ++
    State.completeEvents settings deadline s (items.foldl (State.enter settings deadline s) init)

/-- The events of an item of a batch that began at `begun`, and the end of its task. -/
inductive Life (settings : BatchSettings) (s : Surroundings I W) (begun : Instant) (i : Nat)
    (p : Activity I ItemResult) : List Event → Except Panic ItemResult → Prop
  /-- It was started and came to its end before its time was up. -/
  | finished {t t' : Instant} {r : ItemResult} (start : begun ≤ t) (later : t ≤ t')
    (inTime : t' ≤ limitFrom settings (begun + settings.batchTimeout) t)
    (within : t + settings.itemTimeout < Instant.clockEnd) (ends : p.Comes s t (.ended r) t') :
    Life settings s begun i p [⟨t, i, .started⟩, ⟨t', i, .finished r⟩] (.ok r)
  /-- It was started, and when its time was up it was blocked: it had just blocked once more, or
  its reply was still to arrive. -/
  | timedOut {t t₁ t' wake : Instant} {q : Activity I ItemResult} {span : Span} (start : begun ≤ t)
    (inTime : t ≤ begun + settings.batchTimeout)
    (late : t' = limitFrom settings (begun + settings.batchTimeout) t)
    (limit : span = limitAt settings (begun + settings.batchTimeout) t')
    (within : t + settings.itemTimeout < Instant.clockEnd)
    (blocked : p.Comes s t (.blocked wake q) t₁) (still : t₁ = t' ∨ t₁ ≤ t' ∧ t' < wake) :
    Life settings s begun i p [⟨t, i, .started⟩, ⟨t', i, .timedOut span⟩] (.ok (.timedOut i span))
  /-- It had no slot when the time of the batch was up. -/
  | neverStarted {t : Instant} (late : t = begun + settings.batchTimeout) :
    Life settings s begun i p [⟨t, i, .timedOut settings.batchTimeout⟩]
      (.ok (.timedOut i settings.batchTimeout))
  /-- It had a slot, and its own limit was beyond the clock. -/
  | crashed {t : Instant} (start : begun ≤ t) (inTime : t ≤ begun + settings.batchTimeout)
    (beyond : Instant.clockEnd ≤ t + settings.itemTimeout) :
    Life settings s begun i p [⟨t, i, .crashed⟩] (.error .clock)

/-- What a batch keeps to: each item is started at most once and gets the result of its own activity
or of its own limit, only so many are in progress after any event, and none after the last. -/
structure Orderly (settings : BatchSettings) (task : Nat → Nat) (s : Surroundings I W)
    (begun : Instant) (items : List (Activity I ItemResult)) (h : List Event)
    (results : List ItemResult) : Prop where
  length : results.length = items.length
  known : ∀ e ∈ h, e.item < items.length
  sorted : h.Pairwise (·.time ≤ ·.time)
  inTime : ∀ e ∈ h, e.time ≤ begun + settings.batchTimeout
  life : ∀ i p, items[i]? = some p →
    ∃ r, results[i]? = some (.ofEnd i (task i) r) ∧ Life settings s begun i p (eventsOf h i) r
  slots : ∀ past, past <+: h → inProgress items.length past ≤ max settings.concurrency 1
  drained : inProgress items.length h = 0

end Batch

end PlaybookEngine
