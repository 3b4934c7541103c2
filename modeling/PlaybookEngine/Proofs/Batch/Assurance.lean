import PlaybookEngine.Batch.Slots
import PlaybookEngine.Proofs.Activity.Shown

namespace PlaybookEngine.Batch

variable {I : Interface} {V W : Type}

/-- Surroundings keep to a specification for one share of several, and let the others be. -/
def Keeps (s : Surroundings I W) (c : I.Spec V) (holds : W → List V → Prop) : Prop :=
  ∀ i (vs : List V), i < vs.length → Activity.Keeps s c fun w v => holds w (vs.set i v)

/-- The result is right, or the time of the item was up, or it was not started: its limit was beyond
the clock. -/
def Comes (Q : Nat → ItemResult → Prop) (i : Nat) : Except Panic ItemResult → Prop
  | .ok r => Q i r ∨ ∃ span, r = .timedOut i span
  | .error why => why = .clock

/-- Where an item stands that assures a right result, with the share that it has. -/
def Progress.Sound (c : I.Spec V) (Q : Nat → ItemResult → Prop) (i : Nat) (v : V) :
    Progress I → Prop
  | .waiting _ p => p.Assures c v fun r _ => Q i r
  | .admitted p => p.Assures c v fun r _ => Q i r
  | .asleep _ _ _ p => p.Assures c v fun r _ => Q i r
  | .ended r => Comes Q i r

namespace State

/-- The shares hold in the world, and every item that came in is sound with its own. -/
structure Sound (c : I.Spec V) (Q : Nat → ItemResult → Prop) (holds : W → List V → Prop)
    (vs : List V) (st : State I W) : Prop where
  world : holds st.world vs
  items : ∀ i (x : Progress I), st.items[i]? = some x → ∃ v, vs[i]? = some v ∧ x.Sound c Q i v

variable {c : I.Spec V} {Q : Nat → ItemResult → Prop} {holds : W → List V → Prop} {vs : List V}
variable {s : Surroundings I W} {settings : BatchSettings} {deadline : Instant} {st : State I W}

theorem set_of_getElem? {v : V} {i : Nat} (hv : vs[i]? = some v) : vs.set i v = vs := by
  obtain ⟨hi, rfl⟩ := List.getElem?_eq_some_iff.mp hv
  exact List.set_getElem_self hi

/-- One item that came in is somewhere else. -/
theorem Sound.set (h : st.Sound c Q holds vs) {i : Nat} {v : V} {x : Progress I}
    (hv : vs[i]? = some v) (hx : x.Sound c Q i v) :
    ∀ j (y : Progress I), (st.items.set i x)[j]? = some y →
      ∃ v, vs[j]? = some v ∧ y.Sound c Q j v := by
  intro j y hy
  rw [List.getElem?_set] at hy
  split at hy
  · rename_i hij
    subst hij
    split at hy
    · cases hy
      exact ⟨v, hv, hx⟩
    · cases hy
  · exact h.items j y hy

theorem Sound.releaseSlot (h : st.Sound c Q holds vs) : st.releaseSlot.Sound c Q holds vs := by
  unfold State.releaseSlot
  split
  · exact ⟨h.world, h.items⟩
  · split
    · rename_i p hp
      obtain ⟨v, hv, hx⟩ := h.items _ _ hp
      exact ⟨h.world, h.set hv (x := .admitted p) hx⟩
    · exact ⟨h.world, h.items⟩

theorem length_releaseSlot (st : State I W) : st.releaseSlot.items.length = st.items.length := by
  unfold State.releaseSlot
  split
  · rfl
  · split
    · exact List.length_set
    · rfl

theorem Sound.finish (h : st.Sound c Q holds vs) {i : Nat} {v : V} {r : Except Panic ItemResult}
    (hv : vs[i]? = some v) (hr : Comes Q i r) : (st.finish i r).Sound c Q holds vs :=
  Sound.releaseSlot ⟨h.world, h.set hv (x := .ended r) hr⟩

theorem length_finish (st : State I W) (i : Nat) (r : Except Panic ItemResult) :
    (st.finish i r).items.length = st.items.length := by
  rw [State.finish, length_releaseSlot]
  exact List.length_set

/-- The share of one item is another one; the shares of the others are as they were. -/
theorem Sound.share (h : st.Sound c Q holds vs) {i : Nat} {v' : V} {w : W}
    (hw : holds w (vs.set i v')) {x : Progress I} (hi : i < vs.length) (hx : x.Sound c Q i v') :
    Sound c Q holds (vs.set i v') { st with world := w, items := st.items.set i x } := by
  refine ⟨hw, ?_⟩
  intro j y hy
  dsimp only at hy
  rw [List.getElem?_set] at hy
  split at hy
  · rename_i hij
    subst hij
    split at hy
    · cases hy
      exact ⟨v', by rw [List.getElem?_set_self hi], hx⟩
    · cases hy
  · rename_i hij
    rw [List.getElem?_set_ne hij]
    exact h.items j y hy

variable (hs : Keeps s c holds)
include hs

theorem Sound.proceed (h : st.Sound c Q holds vs) {i : Nat} {v : V} {p : Activity I ItemResult}
    (hv : vs[i]? = some v) (hp : p.Assures c v fun r _ => Q i r) (limit : Due) (span : Span) :
    ∃ v', (st.proceed s i limit span p).Sound c Q holds (vs.set i v') := by
  obtain ⟨hi, rfl⟩ := List.getElem?_eq_some_iff.mp hv
  have hw : holds st.world (vs.set i vs[i]) := by
    rw [List.set_getElem_self]
    exact h.world
  obtain ⟨v', hw', hout⟩ := hp.advance (hs i vs hi) hw st.now
  refine ⟨v', ?_⟩
  unfold State.proceed
  revert hw' hout
  rcases p.advance s st.now st.world with ⟨pause, w⟩
  intro hw' hout
  have shared (x : Progress I) (hx : x.Sound c Q i v') := h.share hw' hi hx
  cases pause with
  | ended r => exact (shared (.ended (.ok r)) (.inl hout)).releaseSlot
  | blocked t rest =>
    dsimp only
    split
    · exact (shared (.ended (.ok (.timedOut i span))) (.inr ⟨span, rfl⟩)).releaseSlot
    · have asleep := shared (.asleep ⟨t, st.turns⟩ limit span rest) hout
      exact ⟨asleep.world, asleep.items⟩

omit hs in
theorem length_proceed (st : State I W) (i : Nat) (limit : Due) (span : Span)
    (p : Activity I ItemResult) : (st.proceed s i limit span p).items.length = st.items.length := by
  unfold State.proceed
  split
  · exact length_finish ..
  · split
    · exact length_finish ..
    · exact List.length_set

theorem Sound.start (h : st.Sound c Q holds vs) {i : Nat} {v : V} {p : Activity I ItemResult}
    (hv : vs[i]? = some v) (hp : p.Assures c v fun r _ => Q i r) :
    ∃ v', (st.start settings deadline s i p).Sound c Q holds (vs.set i v') := by
  unfold State.start
  split
  · exact h.proceed hs hv hp _ _
  · refine ⟨v, ?_⟩
    rw [set_of_getElem? hv]
    exact h.finish hv rfl

omit hs in
theorem length_start (st : State I W) (i : Nat) (p : Activity I ItemResult) :
    (st.start settings deadline s i p).items.length = st.items.length := by
  unfold State.start
  split
  · exact length_proceed ..
  · exact length_finish ..

omit hs in
/-- Another item comes in. -/
theorem Sound.append (h : st.Sound c Q holds vs) {v : V} {x : Progress I}
    (hv : vs[st.items.length]? = some v) (hx : x.Sound c Q st.items.length v) :
    ∀ j (y : Progress I), (st.items ++ [x])[j]? = some y →
      ∃ v, vs[j]? = some v ∧ y.Sound c Q j v := by
  intro j y hy
  rcases Nat.lt_or_ge j st.items.length with hj | hj
  · rw [List.getElem?_append_left hj] at hy
    exact h.items j y hy
  · rw [List.getElem?_append_right hj, List.getElem?_singleton] at hy
    split at hy
    · cases hy
      obtain rfl : j = st.items.length := by omega
      exact ⟨v, hv, hx⟩
    · cases hy

theorem Sound.enter (h : st.Sound c Q holds vs) {v : V} {p : Activity I ItemResult}
    (hv : vs[st.items.length]? = some v) (hp : p.Assures c v fun r _ => Q st.items.length r) :
    ∃ v', (st.enter settings deadline s p).Sound c Q holds (vs.set st.items.length v') := by
  unfold State.enter
  dsimp only
  split
  · have entered : Sound c Q holds vs
        { st with items := st.items ++ [.admitted p], free := st.free - 1 } :=
      ⟨h.world, h.append hv (x := .admitted p) hp⟩
    exact entered.start hs hv hp
  · refine ⟨v, ?_⟩
    rw [set_of_getElem? hv]
    split
    · exact ⟨h.world, h.append hv (x := .ended _) (.inr ⟨_, rfl⟩)⟩
    · exact ⟨h.world, h.append hv (x := .waiting _ p) hp⟩

omit hs in
theorem length_enter (st : State I W) (p : Activity I ItemResult) :
    (st.enter settings deadline s p).items.length = st.items.length + 1 := by
  unfold State.enter
  dsimp only
  split
  · rw [length_start]
    exact List.length_append
  · split
    · exact List.length_append
    · exact List.length_append

/-- The items come in, each with its own share. -/
theorem Sound.enterAll (h : st.Sound c Q holds vs) {ps : List (Activity I ItemResult)}
    (hps : ∀ k p, ps[k]? = some p → ∃ v, vs[st.items.length + k]? = some v ∧
      p.Assures c v fun r _ => Q (st.items.length + k) r) :
    ∃ vs', (ps.foldl (State.enter settings deadline s) st).Sound c Q holds vs' := by
  induction ps generalizing st vs with
  | nil => exact ⟨vs, h⟩
  | cons p rest ih =>
    obtain ⟨v, hv, hp⟩ := hps 0 p rfl
    obtain ⟨v', entered⟩ : ∃ v', (st.enter settings deadline s p).Sound c Q holds
      (vs.set st.items.length v') := h.enter hs hv hp
    apply ih entered
    intro k q hq
    obtain ⟨u, hu, hassures⟩ := hps (k + 1) q hq
    rw [length_enter, Nat.add_assoc, Nat.add_comm 1 k]
    refine ⟨u, ?_, hassures⟩
    rw [List.getElem?_set_ne (by omega)]
    exact hu

omit hs in
theorem length_enterAll (st : State I W) (ps : List (Activity I ItemResult)) :
    (ps.foldl (State.enter settings deadline s) st).items.length = st.items.length + ps.length := by
  induction ps generalizing st with
  | nil => rfl
  | cons p rest ih =>
    rw [List.foldl_cons, ih, length_enter, List.length_cons]
    omega

theorem Sound.resume {st' : State I W} {i : Nat} (h : st.Sound c Q holds vs)
    (hst : st.resume? settings deadline s i = some st') :
    ∃ vs', st'.Sound c Q holds vs' := by
  unfold State.resume? at hst
  split at hst
  · rename_i p hp
    cases hst
    obtain ⟨v, hv, hassures⟩ := h.items i _ hp
    obtain ⟨v', sound⟩ := h.start hs hv hassures
    exact ⟨_, sound⟩
  · rename_i limit p hp
    cases hst
    obtain ⟨v, hv, -⟩ := h.items i _ hp
    exact ⟨vs, h.world, h.set hv (x := .ended _) (.inr ⟨_, rfl⟩)⟩
  · rename_i wake limit span p hp
    obtain ⟨v, hv, hassures⟩ := h.items i _ hp
    split at hst
    · cases hst
      obtain ⟨v', sound⟩ := h.proceed hs hv hassures limit span
      exact ⟨_, sound⟩
    · cases hst
      exact ⟨vs, h.finish hv (.inr ⟨_, rfl⟩)⟩
  · cases hst

omit hs in
theorem length_resume {st' : State I W} {i : Nat}
    (hst : st.resume? settings deadline s i = some st') : st'.items.length = st.items.length := by
  unfold State.resume? at hst
  split at hst
  · cases hst
    exact length_start ..
  · cases hst
    exact List.length_set
  · split at hst
    · cases hst
      exact length_proceed ..
    · cases hst
      exact length_finish ..
  · cases hst

omit hs in
theorem await_eq (st : State I W) :
    st.await.world = st.world ∧ st.await.items = st.items := by
  unfold State.await
  split
  · exact ⟨rfl, rfl⟩
  · split
    · exact ⟨rfl, rfl⟩
    · exact ⟨rfl, rfl⟩

omit hs in
theorem length_next {st' : State I W} (hst : st.next? settings deadline s = some st') :
    st'.items.length = st.items.length := by
  unfold State.next? at hst
  dsimp only at hst
  split at hst
  · cases hst
  · exact (length_resume hst).trans (congrArg List.length st.await_eq.2)

omit hs in
theorem length_complete (deadline : Instant) (st : State I W) :
    (st.complete settings deadline s).items.length = st.items.length := by
  fun_induction State.complete settings deadline s st with
  | case1 st hst => rfl
  | case2 st st' hst ih => exact ih.trans (length_next hst)

theorem Sound.next {st' : State I W} (h : st.Sound c Q holds vs)
    (hst : st.next? settings deadline s = some st') : ∃ vs', st'.Sound c Q holds vs' := by
  obtain ⟨hworld, hitems⟩ := st.await_eq
  unfold State.next? at hst
  dsimp only at hst
  split at hst
  · cases hst
  · rename_i i ready _
    have awaited : Sound c Q holds vs { st.await with ready := ready } :=
      ⟨hworld ▸ h.world, hitems ▸ h.items⟩
    exact awaited.resume hs hst

theorem Sound.complete (h : st.Sound c Q holds vs) :
    ∃ vs', (st.complete settings deadline s).Sound c Q holds vs' := by
  fun_induction State.complete settings deadline s st generalizing vs with
  | case1 st hst => exact ⟨vs, h⟩
  | case2 st st' hst ih =>
    obtain ⟨vs', sound⟩ := h.next hs hst
    exact ih sound

end State

theorem length_join (settings : BatchSettings) (deadline : Instant) (s : Surroundings I W)
    (items : List (Activity I ItemResult)) (now : Instant) (w : W) :
    (join settings deadline s items now w).1.length = items.length := by
  unfold join
  rw [List.length_mapIdx, State.length_complete, State.length_enterAll]
  exact Nat.zero_add _

/-- Every item of a batch comes to what it assures, whatever the others do. -/
theorem join_comes {c : I.Spec V} {Q : Nat → ItemResult → Prop} {holds : W → List V → Prop}
    {s : Surroundings I W} (hs : Keeps s c holds) (settings : BatchSettings) (deadline : Instant)
    {vs : List V} {items : List (Activity I ItemResult)}
    (hitems : ∀ i (p : Activity I ItemResult), items[i]? = some p →
      ∃ v, vs[i]? = some v ∧ p.Assures c v fun r _ => Q i r)
    {w : W} (hw : holds w vs) (now : Instant) :
    ∀ i r, (join settings deadline s items now w).1[i]? = some r → Comes Q i r := by
  let init : State I W := ⟨[], [], [], max settings.concurrency 1, 0, now, w⟩
  have start : init.Sound c Q holds vs := ⟨hw, fun i x hx => by cases hx⟩
  have each (k : Nat) (p : Activity I ItemResult) (hp : items[k]? = some p) :
      ∃ v, vs[init.items.length + k]? = some v ∧
        p.Assures c v fun r _ => Q (init.items.length + k) r := by
    rw [show init.items.length + k = k from Nat.zero_add k]
    exact hitems k p hp
  let all := items.foldl (State.enter settings deadline s) init
  obtain ⟨vs₁, entered⟩ : ∃ vs', all.Sound c Q holds vs' := start.enterAll hs each
  obtain ⟨vs₂, ended⟩ : ∃ vs', (all.complete settings deadline s).Sound c Q holds vs' :=
    entered.complete hs
  intro i r hr
  unfold join at hr
  rw [List.getElem?_mapIdx, Option.map_eq_some_iff] at hr
  obtain ⟨x, hx, rfl⟩ := hr
  obtain ⟨v, -, sound⟩ := ended.items i x hx
  cases x with
  | ended r => exact sound
  | waiting limit p => exact .inr ⟨_, rfl⟩
  | admitted p => exact .inr ⟨_, rfl⟩
  | asleep wake limit span p => exact .inr ⟨_, rfl⟩

theorem State.complete_of_stops {settings : BatchSettings} {deadline : Instant}
    {s : Surroundings I W} {st : State I W} (h : st.next? settings deadline s = none) :
    st.complete settings deadline s = st := by
  rw [State.complete]
  split
  · rfl
  · rename_i st' hst
    rw [h] at hst
    cases hst

theorem State.complete_of_next {settings : BatchSettings} {deadline : Instant}
    {s : Surroundings I W} {st st' : State I W} (h : st.next? settings deadline s = some st') :
    st.complete settings deadline s = st'.complete settings deadline s := by
  rw [State.complete]
  split
  · rename_i hst
    rw [h] at hst
    cases hst
  · rename_i st₁ hst
    rw [h] at hst
    cases hst
    rfl

/-- The end of a batch that begins then is not beyond the clock, and there can be so many slots. -/
structure Fits (settings : BatchSettings) (begun : Instant) : Prop where
  clock : begun + settings.batchTimeout < Instant.clockEnd
  slots : max settings.concurrency 1 ≤ maxSlots

/-- A batch with the usual settings may begin when the clock does. -/
theorem fits_default : Fits .default 0 := ⟨by decide, by decide⟩

section Process

variable {settings : BatchSettings} {task : Nat → Nat} {s : Surroundings I W}
variable {items : List (Activity I ItemResult)} {now : Instant} {w : W}

theorem join_nil (deadline : Instant) :
    join settings deadline s [] now w = ([], now, w) := by
  have stops : State.next? settings deadline s
      (⟨[], [], [], max settings.concurrency 1, 0, now, w⟩ : State I W) = none := rfl
  unfold join
  dsimp only [List.foldl_nil]
  rw [State.complete_of_stops stops]
  rfl

/-- What a batch comes to that begins: the results of its items. -/
theorem process_of_fits (h : items = [] ∨ Fits settings now) :
    process settings task s items now w =
      let (ends, now, w) := join settings (now + settings.batchTimeout) s items now w
      .ok (ends.mapIdx fun i r => .ofEnd i (task i) r, now, w) := by
  unfold process
  rcases h with rfl | ⟨clock, slots⟩
  · rw [join_nil]
    rfl
  · split
    · rename_i hnil
      rw [List.isEmpty_iff.mp hnil, join_nil]
      rfl
    · rw [if_neg (Nat.not_le_of_lt clock), if_neg (Nat.not_lt_of_le slots)]

/-- A batch of any items panics whose limits do not fit. -/
theorem process_of_not_fits (nonempty : items ≠ []) (h : ¬ Fits settings now) :
    ∃ why, process settings task s items now w = .error why := by
  unfold process
  rw [if_neg fun hnil => nonempty (List.isEmpty_iff.mp hnil)]
  split
  · exact ⟨_, rfl⟩
  · rename_i clock
    rw [if_pos (Nat.lt_of_not_le fun slots => h ⟨Nat.lt_of_not_le clock, slots⟩)]
    exact ⟨_, rfl⟩

theorem process_ok_iff :
    (∃ x, process settings task s items now w = .ok x) ↔ items = [] ∨ Fits settings now := by
  by_cases h : items = [] ∨ Fits settings now
  · exact iff_of_true ⟨_, process_of_fits h⟩ h
  · obtain ⟨nonempty, fits⟩ := not_or.mp h
    obtain ⟨why, hwhy⟩ : ∃ why, process settings task s items now w = .error why :=
      process_of_not_fits nonempty fits
    rw [hwhy]
    exact iff_of_false nofun h

/-- The results of a batch are made of the ends of its items. -/
theorem getElem?_of_process {results : List ItemResult} {now' : Instant} {w' : W}
    (h : process settings task s items now w = .ok (results, now', w')) (i : Nat) :
    results[i]? = ((join settings (now + settings.batchTimeout) s items now w).1[i]?).map
      (.ofEnd i (task i)) := by
  rw [process_of_fits (process_ok_iff.mp ⟨_, h⟩), Except.ok.injEq, Prod.mk.injEq] at h
  rw [← h.1, List.getElem?_mapIdx]

theorem length_process {results : List ItemResult} {now' : Instant} {w' : W}
    (h : process settings task s items now w = .ok (results, now', w')) :
    results.length = items.length := by
  rw [process_of_fits (process_ok_iff.mp ⟨_, h⟩), Except.ok.injEq, Prod.mk.injEq] at h
  rw [← h.1, List.length_mapIdx, length_join]

/-- Each item comes to a result of its own kind, unless it is given up. -/
theorem process_abides {Q : Nat → ItemResult → Prop}
    (hitems : ∀ i (p : Activity I ItemResult), items[i]? = some p → p.Abides (fun _ => True) (Q i))
    {results : List ItemResult} {now' : Instant} {w' : W}
    (hprocess : process settings task s items now w = .ok (results, now', w')) :
    ∀ i r, results[i]? = some r → ∃ x, r = .ofEnd i (task i) x ∧ Comes Q i x := by
  have keeps : Keeps s (Interface.within fun _ => True) fun (_ : W) (_ : List Unit) => True :=
    fun _ _ _ now r w _ _ _ hK => ⟨(), hK.2 _, trivial⟩
  have assured (i : Nat) (p : Activity I ItemResult) (hp : items[i]? = some p) :
      ∃ v, (List.replicate items.length ())[i]? = some v ∧
        p.Assures (Interface.within fun _ => True) v fun r _ => Q i r :=
    ⟨(), List.getElem?_replicate_of_lt (List.getElem?_eq_some_iff.mp hp).1, hitems i p hp⟩
  intro i r hr
  rw [getElem?_of_process hprocess, Option.map_eq_some_iff] at hr
  obtain ⟨x, hx, rfl⟩ := hr
  exact ⟨x, rfl, join_comes keeps settings _ assured trivial now i x hx⟩

/-- A single item that ends before it blocks is all there is to its batch. -/
theorem process_singleton_of_ended (task : Nat → Nat) {p : Activity I ItemResult} {r : ItemResult}
    {w' : W}
    (h : p.advance s now w = (.ended r, w')) (fits : Fits settings now)
    (own : now + settings.itemTimeout < Instant.clockEnd) :
    process settings task s [p] now w = .ok ([r], now, w') := by
  have free : 0 < max settings.concurrency 1 :=
    Nat.lt_of_lt_of_le Nat.one_pos (Nat.le_max_right _ _)
  have entered : State.enter settings (now + settings.batchTimeout) s
      ⟨[], [], [], max settings.concurrency 1, 0, now, w⟩ p =
        ⟨[.ended (.ok r)], [], [], max settings.concurrency 1 - 1 + 1, 0, now, w'⟩ := by
    simp only [State.enter, if_pos free, State.start, if_pos own, State.proceed, h]
    rfl
  have stops : State.next? settings (now + settings.batchTimeout) s
      ⟨[.ended (.ok r)], [], [], max settings.concurrency 1 - 1 + 1, 0, now, w'⟩ = none := rfl
  rw [process_of_fits (.inr fits), join]
  dsimp only [List.foldl_cons, List.foldl_nil]
  rw [entered, State.complete_of_stops stops]
  rfl

/-- A single item that is blocked beyond its time is given up there. -/
theorem process_singleton_of_blocked (task : Nat → Nat) {p q : Activity I ItemResult}
    {wake : Instant} {w' : W}
    (h : p.advance s now w = (.blocked wake q, w')) (fits : Fits settings now)
    (positive : 0 < settings.itemTimeout) (shorter : settings.itemTimeout < settings.batchTimeout)
    (late : now + settings.itemTimeout < wake) :
    process settings task s [p] now w =
      .ok ([.timedOut 0 settings.itemTimeout], now + settings.itemTimeout, w') := by
  have free : 0 < max settings.concurrency 1 :=
    Nat.lt_of_lt_of_le Nat.one_pos (Nat.le_max_right _ _)
  have earlier : now + settings.itemTimeout < now + settings.batchTimeout :=
    Nat.add_lt_add_left shorter now
  have limit : min (now + settings.itemTimeout) (now + settings.batchTimeout) =
      now + settings.itemTimeout := Nat.min_eq_left (Nat.le_of_lt earlier)
  have waits : ¬ now + settings.itemTimeout ≤ now :=
    Nat.not_le_of_lt (Nat.lt_add_of_pos_right positive)
  have entered : State.enter settings (now + settings.batchTimeout) s
      ⟨[], [], [], max settings.concurrency 1, 0, now, w⟩ p =
        ⟨[.asleep ⟨wake, 0⟩ ⟨now + settings.itemTimeout, 1⟩ settings.itemTimeout q], [], [],
          max settings.concurrency 1 - 1, 2, now, w'⟩ := by
    simp only [State.enter, if_pos free, State.start, if_pos (Nat.lt_trans earlier fits.clock),
      State.proceed, h, limit, if_neg (Nat.ne_of_lt earlier), if_neg waits]
    rfl
  have due : State.nextDue? [Progress.asleep ⟨wake, 0⟩ ⟨now + settings.itemTimeout, 1⟩
      settings.itemTimeout q] = some (now + settings.itemTimeout, [0]) := by
    have first : ¬ wake < now + settings.itemTimeout := Nat.lt_asymm late
    simp [State.nextDue?, Progress.due?, if_neg first, if_pos late]
  have given : State.next? settings (now + settings.batchTimeout) s
      ⟨[.asleep ⟨wake, 0⟩ ⟨now + settings.itemTimeout, 1⟩ settings.itemTimeout q], [], [],
          max settings.concurrency 1 - 1, 2, now, w'⟩ =
        some ⟨[.ended (.ok (.timedOut 0 settings.itemTimeout))], [], [],
          max settings.concurrency 1 - 1 + 1, 2, now + settings.itemTimeout, w'⟩ := by
    have reached : max now (now + settings.itemTimeout) = now + settings.itemTimeout :=
      Nat.max_eq_right (Nat.le_add_right now settings.itemTimeout)
    have asleep : ¬ wake ≤ now + settings.itemTimeout := Nat.not_le_of_lt late
    simp only [State.next?, State.await, due, reached, State.resume?, List.getElem?_cons_zero,
      if_neg asleep]
    rfl
  have stops : State.next? settings (now + settings.batchTimeout) s
      ⟨[.ended (.ok (.timedOut 0 settings.itemTimeout))], [], [],
        max settings.concurrency 1 - 1 + 1, 2, now + settings.itemTimeout, w'⟩ = none := rfl
  rw [process_of_fits (.inr fits), join]
  dsimp only [List.foldl_cons, List.foldl_nil]
  rw [entered, State.complete_of_next given, State.complete_of_stops stops]
  rfl

end Process

end PlaybookEngine.Batch
