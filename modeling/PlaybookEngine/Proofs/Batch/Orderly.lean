import PlaybookEngine.Proofs.Batch.History

namespace PlaybookEngine.Batch

variable {I : Interface} {W : Type}

theorem eventsOf_append (h h' : List Event) (i : Nat) :
    eventsOf (h ++ h') i = eventsOf h i ++ eventsOf h' i := List.filter_append ..

theorem eventsOf_append_self (h : List Event) (e : Event) :
    eventsOf (h ++ [e]) e.item = eventsOf h e.item ++ [e] := by
  rw [eventsOf_append]
  simp [eventsOf]

theorem eventsOf_append_other {e : Event} {i : Nat} (hi : e.item ≠ i) (h : List Event) :
    eventsOf (h ++ [e]) i = eventsOf h i := by
  rw [eventsOf_append]
  simp [eventsOf, hi]

theorem underway_append (own : List Event) (e : Event) : underway (own ++ [e]) = e.isStart := by
  simp [underway]

theorem mem_of_underway {h : List Event} {i : Nat} (hi : underway (eventsOf h i)) :
    ∃ e ∈ h, e.item = i := by
  cases hlast : (eventsOf h i).getLast? with
  | none => simp [underway, hlast] at hi
  | some e =>
    have he := List.mem_filter.mp (List.mem_of_getLast? hlast)
    exact ⟨e, he.1, beq_iff_eq.mp he.2⟩

theorem Life.not_underway {settings : BatchSettings} {s : Surroundings I W} {begun : Instant}
    {i : Nat} {p : Activity I ItemResult} {own : List Event} {r : Except Panic ItemResult}
    (h : Life settings s begun i p own r) : ¬ underway own := by
  cases h <;> simp [underway, Event.isStart]

/-- Numbers below `n` that all stand for elements of a list with a property are no more than
these. -/
theorem countP_range_le {α : Type} {f : Nat → Bool} {g : α → Bool} {l : List α}
    (h : ∀ j, f j → ∃ x, l[j]? = some x ∧ g x) (n : Nat) :
    (List.range n).countP f ≤ l.countP g := by
  induction l generalizing n f with
  | nil =>
    rw [List.countP_eq_zero.mpr]
    · exact Nat.zero_le _
    · intro j _ hj
      obtain ⟨x, hx, -⟩ := h j hj
      cases hx
  | cons a l ih =>
    cases n with
    | zero => exact Nat.zero_le _
    | succ n =>
      have rest := ih (f := f ∘ Nat.succ) (fun j hj => h (j + 1) hj) n
      rw [List.range_succ_eq_map, List.countP_cons, List.countP_cons, List.countP_map]
      refine Nat.add_le_add rest ?_
      by_cases h0 : f 0 = true
      · obtain ⟨x, hx, hg⟩ := h 0 h0
        obtain rfl := Option.some_inj.mp hx
        simp only [h0, hg, if_true, Nat.le_refl]
      · simp only [h0, Bool.false_eq_true, if_false, Nat.zero_le]

namespace Progress

def holds : Progress I → Bool
  | .admitted _ => true
  | .asleep _ _ _ _ => true
  | _ => false

/-- The item can go on. -/
def IsDue (now : Instant) : Progress I → Prop
  | .waiting limit _ => limit.time ≤ now
  | .admitted _ => True
  | .asleep wake limit _ _ => wake.time ≤ now ∨ limit.time ≤ now
  | .ended _ => False

/-- An item was started at `t` and has until its limit. -/
structure Going (settings : BatchSettings) (begun now t limit : Instant) (span : Span) : Prop where
  start : begun ≤ t
  past : t ≤ now
  ahead : now ≤ limit
  until_eq : limit = limitFrom settings (begun + settings.batchTimeout) t
  span_eq : span = limitAt settings (begun + settings.batchTimeout) limit
  within : t + settings.itemTimeout < Instant.clockEnd

/-- An item that was started at `t` has blocked, and its reply has not arrived before now. -/
def Blocked (s : Surroundings I W) (now t : Instant) (p : Activity I ItemResult) (wake : Instant)
    (q : Activity I ItemResult) : Prop :=
  ∃ t₁, p.Comes s t (.blocked wake q) t₁ ∧ t₁ ≤ now ∧ now ≤ max t₁ wake

/-- The events of an item tell where it stands. -/
def Tells (settings : BatchSettings) (s : Surroundings I W) (begun now : Instant) (i : Nat)
    (p : Activity I ItemResult) (own : List Event) : Progress I → Prop
  | .waiting limit q => own = [] ∧ q = p ∧ limit.time = begun + settings.batchTimeout
  | .admitted q => own = [] ∧ q = p
  | .asleep wake limit span q => ∃ t, own = [⟨t, i, .started⟩] ∧
    Going settings begun now t limit.time span ∧ Blocked s now t p wake.time q
  | .ended r => Life settings s begun i p own r

variable {settings : BatchSettings} {s : Surroundings I W} {begun now : Instant} {i : Nat}
variable {p : Activity I ItemResult} {own : List Event} {x : Progress I}

theorem Tells.holds_of_underway (h : x.Tells settings s begun now i p own) (hu : underway own) :
    x.holds := by
  cases x with
  | waiting limit q =>
    obtain ⟨rfl, -, -⟩ := h
    cases hu
  | admitted q => rfl
  | asleep wake limit span q => rfl
  | ended r => exact absurd hu (Life.not_underway h)

theorem due?_eq_none (h : x.due? = none) : (∃ q, x = .admitted q) ∨ ∃ r, x = .ended r := by
  cases x with
  | waiting limit q => cases h
  | admitted q => exact .inl ⟨q, rfl⟩
  | asleep wake limit span q => cases h
  | ended r => exact .inr ⟨r, rfl⟩

theorem isDue_of_due? {d : Due} (h : x.due? = some d) (hd : d.time ≤ now) : x.IsDue now := by
  cases x with
  | waiting limit q =>
    cases h
    exact hd
  | admitted q => cases h
  | asleep wake limit span q =>
    simp only [due?, Option.some.injEq] at h
    subst h
    unfold IsDue
    split at hd
    · exact .inl hd
    · split at hd
      · exact .inr hd
      · split at hd
        · exact .inl hd
        · exact .inr hd
  | ended r => cases h

theorem due_le_wake {wake limit d : Due} {span : Span} {q : Activity I ItemResult}
    (h : (Progress.asleep wake limit span q).due? = some d) : d.time ≤ wake.time := by
  simp only [due?, Option.some.injEq] at h
  subst h
  split
  · exact Nat.le_refl _
  · split
    · exact Nat.le_of_lt ‹_›
    · split
      · exact Nat.le_refl _
      · exact Nat.le_of_not_lt ‹¬ wake.time < limit.time›

theorem due_le_limit {wake limit d : Due} {span : Span} {q : Activity I ItemResult}
    (h : (Progress.asleep wake limit span q).due? = some d) : d.time ≤ limit.time := by
  simp only [due?, Option.some.injEq] at h
  subst h
  split
  · exact Nat.le_of_lt ‹_›
  · split
    · exact Nat.le_refl _
    · split
      · exact Nat.le_of_not_lt ‹¬ limit.time < wake.time›
      · exact Nat.le_refl _

theorem Tells.due_le (h : x.Tells settings s begun now i p own) {d : Due} (hd : x.due? = some d) :
    d.time ≤ begun + settings.batchTimeout := by
  cases x with
  | waiting limit q =>
    obtain ⟨-, -, hlimit⟩ := h
    cases hd
    exact Nat.le_of_eq hlimit
  | admitted q => cases hd
  | asleep wake limit span q =>
    obtain ⟨t, -, going, -⟩ := h
    exact Nat.le_trans (due_le_limit hd) (going.until_eq ▸ Nat.min_le_right _ _)
  | ended r => cases hd

theorem Tells.wait (h : x.Tells settings s begun now i p own) {now' : Instant} (hle : now ≤ now')
    (hdue : ∀ d, x.due? = some d → now' ≤ max now d.time) :
    x.Tells settings s begun now' i p own := by
  cases x with
  | waiting limit q => exact h
  | admitted q => exact h
  | asleep wake limit span q =>
    obtain ⟨t, rfl, going, t₁, comes, before, until_reply⟩ := h
    have due : (asleep wake limit span q).due? = some _ := rfl
    have ahead := Nat.max_le.mpr ⟨going.ahead, due_le_limit due⟩
    have reply := Nat.max_le.mpr
      ⟨until_reply, Nat.le_trans (due_le_wake due) (Nat.le_max_right t₁ wake.time)⟩
    exact ⟨t, rfl,
      { going with
        past := Nat.le_trans going.past hle, ahead := Nat.le_trans (hdue _ due) ahead },
      t₁, comes, Nat.le_trans before hle, Nat.le_trans (hdue _ due) reply⟩
  | ended r => exact h

end Progress

namespace State

/-- The history up to now fits the state; `cur` is an item that a step goes through, and `spare` the
number of slots that it has given up. -/
structure Tracked (settings : BatchSettings) (s : Surroundings I W) (begun : Instant)
    (ps : List (Activity I ItemResult)) (cur : Option Nat) (spare : Nat) (h : List Event)
    (st : State I W) : Prop where
  begun_le : begun ≤ st.now
  now_le : st.now ≤ begun + settings.batchTimeout
  sorted : h.Pairwise (·.time ≤ ·.time)
  past : ∀ e ∈ h, e.time ≤ st.now
  known : ∀ e ∈ h, e.item < st.items.length
  items : ∀ j x, st.items[j]? = some x → cur ≠ some j →
    ∃ p, ps[j]? = some p ∧ x.Tells settings s begun st.now j p (eventsOf h j)
  nodup : st.ready.Nodup
  ready : ∀ j ∈ st.ready, cur ≠ some j ∧ ∃ x, st.items[j]? = some x ∧ x.IsDue st.now
  admitted : ∀ j q, st.items[j]? = some (.admitted q) → cur ≠ some j → j ∈ st.ready
  current : ∀ j, cur = some j → j < st.items.length ∧
    (underway (eventsOf h j) → ∃ x, st.items[j]? = some x ∧ x.holds)
  slots : st.free + spare + st.items.countP Progress.holds = max settings.concurrency 1
  within : ∀ past, past <+: h → inProgress ps.length past ≤ max settings.concurrency 1

variable {settings : BatchSettings} {s : Surroundings I W} {begun : Instant}
variable {ps : List (Activity I ItemResult)} {cur : Option Nat} {spare : Nat}
variable {h : List Event} {st st' : State I W} {i : Nat} {p q : Activity I ItemResult}
variable {x y : Progress I} {r : Except Panic ItemResult}

/-- Neither the order of those that wait nor the world matters. -/
theorem Tracked.of_eq (t : Tracked settings s begun ps cur spare h st)
    (hitems : st'.items = st.items) (hready : st'.ready = st.ready)
    (hfree : st'.free = st.free) (hnow : st'.now = st.now) :
    Tracked settings s begun ps cur spare h st' := by
  obtain ⟨items', ready', queue', free', turns', now', world'⟩ := st'
  dsimp only at hitems hready hfree hnow
  subst hitems hready hfree hnow
  exact { t with }

theorem Tracked.holds_of_underway (t : Tracked settings s begun ps cur spare h st) {j : Nat}
    (hj : underway (eventsOf h j)) : ∃ x, st.items[j]? = some x ∧ x.holds := by
  by_cases hcur : cur = some j
  · exact (t.current j hcur).2 hj
  · obtain ⟨e, he, rfl⟩ := mem_of_underway hj
    have hx := List.getElem?_eq_getElem (t.known e he)
    obtain ⟨p, -, tells⟩ := t.items _ _ hx hcur
    exact ⟨_, hx, tells.holds_of_underway hj⟩

theorem Tracked.log (t : Tracked settings s begun ps (some i) spare h st) {e : Event}
    (hitem : e.item = i) (htime : e.time = st.now)
    (hstart : e.isStart → ∃ x, st.items[i]? = some x ∧ x.holds) :
    Tracked settings s begun ps (some i) spare (h ++ [e]) st := by
  subst hitem
  have others {j : Nat} (hj : some e.item ≠ some j) : eventsOf (h ++ [e]) j = eventsOf h j :=
    eventsOf_append_other (fun hij => hj (congrArg some hij)) h
  have current (hu : underway (eventsOf (h ++ [e]) e.item)) :
      ∃ x, st.items[e.item]? = some x ∧ x.holds := by
    rw [eventsOf_append_self, underway_append] at hu
    exact hstart hu
  refine { t with
    sorted := ?_, past := ?_, known := ?_, items := ?_, current := ?_, within := ?_ }
  · refine List.pairwise_append.mpr ⟨t.sorted, List.pairwise_singleton .., ?_⟩
    intro a ha b hb
    obtain rfl := List.mem_singleton.mp hb
    exact Nat.le_trans (t.past a ha) (Nat.le_of_eq htime.symm)
  · intro a ha
    rcases List.mem_append.mp ha with ha | ha
    · exact t.past a ha
    · obtain rfl := List.mem_singleton.mp ha
      exact Nat.le_of_eq htime
  · intro a ha
    rcases List.mem_append.mp ha with ha | ha
    · exact t.known a ha
    · obtain rfl := List.mem_singleton.mp ha
      exact (t.current _ rfl).1
  · intro j x hx hj
    rw [others hj]
    exact t.items j x hx hj
  · intro j hj
    obtain rfl := Option.some_inj.mp hj
    exact ⟨(t.current _ rfl).1, current⟩
  · intro past hpast
    rcases List.prefix_concat_iff.mp hpast with rfl | hpast
    · have holders : inProgress ps.length (h ++ [e]) ≤ st.items.countP Progress.holds := by
        refine countP_range_le (fun j hj => ?_) _
        by_cases hij : some e.item = some j
        · obtain rfl := Option.some_inj.mp hij
          exact current hj
        · rw [others hij] at hj
          exact t.holds_of_underway hj
      have := t.slots
      omega
    · exact t.within past hpast

theorem Tracked.put (t : Tracked settings s begun ps (some i) spare h st)
    (hx : st.items[i]? = some x) {n : Nat}
    (hspare : n + y.holds.toNat = spare + x.holds.toNat)
    (hy : underway (eventsOf h i) → y.holds) :
    Tracked settings s begun ps (some i) n h { st with items := st.items.set i y } := by
  obtain ⟨hi, rfl⟩ := List.getElem?_eq_some_iff.mp hx
  have others {j : Nat} (hj : some i ≠ some j) : (st.items.set i y)[j]? = st.items[j]? :=
    List.getElem?_set_ne fun hij => hj (congrArg some hij)
  refine { t with
    known := ?_, items := ?_, ready := ?_, admitted := ?_, current := ?_, slots := ?_ }
  · intro e he
    simpa only [List.length_set] using t.known e he
  · intro j z hz hj
    exact t.items j z ((others hj).symm.trans hz) hj
  · intro j hj
    obtain ⟨hcur, z, hz, due⟩ := t.ready j hj
    exact ⟨hcur, z, (others hcur).trans hz, due⟩
  · intro j q hq hj
    exact t.admitted j q ((others hj).symm.trans hq) hj
  · intro j hj
    obtain rfl := Option.some_inj.mp hj
    simp only [List.length_set]
    exact ⟨hi, fun hu => ⟨y, List.getElem?_set_self hi, hy hu⟩⟩
  · have slots := t.slots
    have atLeast : st.items[i].holds → 0 < st.items.countP Progress.holds := fun hh =>
      List.countP_pos_iff.mpr ⟨_, List.getElem_mem hi, hh⟩
    rw [List.countP_set hi]
    cases hxh : st.items[i].holds <;> cases hyh : y.holds <;>
      simp only [hxh, hyh, Bool.toNat_true, Bool.toNat_false, Bool.false_eq_true, forall_const,
        if_true, if_false] at hspare atLeast ⊢ <;>
      omega

theorem Tracked.settle (t : Tracked settings s begun ps (some i) spare h st)
    (hx : st.items[i]? = some x) (hp : ps[i]? = some p)
    (tells : x.Tells settings s begun st.now i p (eventsOf h i)) (hq : ∀ q, x ≠ .admitted q) :
    Tracked settings s begun ps none spare h st := by
  refine { t with items := ?_, ready := ?_, admitted := ?_, current := ?_ }
  · intro j z hz _
    by_cases hij : some i = some j
    · obtain rfl := Option.some_inj.mp hij
      obtain rfl := Option.some_inj.mp (hx.symm.trans hz)
      exact ⟨p, hp, tells⟩
    · exact t.items j z hz hij
  · intro j hj
    exact ⟨nofun, (t.ready j hj).2⟩
  · intro j q hz _
    by_cases hij : some i = some j
    · obtain rfl := Option.some_inj.mp hij
      exact absurd (Option.some_inj.mp (hx.symm.trans hz)) (hq q)
    · exact t.admitted j q hz hij
  · intro j hj
    cases hj

/-- An item comes in; it may have taken a slot. -/
theorem Tracked.append (t : Tracked settings s begun ps none spare h st) {n : Nat}
    (hfree : n + x.holds.toNat = st.free) :
    Tracked settings s begun ps (some st.items.length) spare h
      { st with items := st.items ++ [x], free := n } := by
  have old {j : Nat} {z : Progress I} (hz : (st.items ++ [x])[j]? = some z)
      (hj : some st.items.length ≠ some j) : st.items[j]? = some z := by
    rcases Nat.lt_or_ge j st.items.length with hlt | hge
    · rwa [List.getElem?_append_left hlt] at hz
    · have hlt := (List.getElem?_eq_some_iff.mp hz).1
      rw [List.length_append, List.length_singleton] at hlt
      exact absurd (congrArg some (show st.items.length = j by omega)) hj
  refine { t with
    known := ?_, items := ?_, ready := ?_, admitted := ?_, current := ?_, slots := ?_ }
  · intro e he
    rw [List.length_append]
    exact Nat.lt_add_right _ (t.known e he)
  · intro j z hz hj
    exact t.items j z (old hz hj) nofun
  · intro j hj
    obtain ⟨-, z, hz, due⟩ := t.ready j hj
    have hlt := (List.getElem?_eq_some_iff.mp hz).1
    refine ⟨fun hij => ?_, z, ?_, due⟩
    · exact Nat.ne_of_gt hlt (Option.some_inj.mp hij)
    · dsimp only
      rw [List.getElem?_append_left hlt, hz]
  · intro j q hq hj
    exact t.admitted j q (old hq hj) nofun
  · intro j hj
    obtain rfl := Option.some_inj.mp hj
    refine ⟨by simp, fun hu => ?_⟩
    obtain ⟨e, he, hitem⟩ := mem_of_underway hu
    exact absurd (t.known e he) (by omega)
  · have slots := t.slots
    simp only [List.countP_append, List.countP_singleton]
    cases hx : x.holds <;> simp [hx] at hfree ⊢ <;> omega

theorem Tracked.pop (t : Tracked settings s begun ps none spare h st) {rest : List Nat}
    (hready : st.ready = i :: rest) :
    Tracked settings s begun ps (some i) spare h { st with ready := rest } := by
  have nodup := t.nodup
  rw [hready, List.nodup_cons] at nodup
  have mem {j : Nat} (hj : j ∈ rest) : j ∈ st.ready := hready ▸ List.mem_cons_of_mem i hj
  refine { t with items := ?_, nodup := nodup.2, ready := ?_, admitted := ?_, current := ?_ }
  · intro j z hz _
    exact t.items j z hz nofun
  · intro j hj
    refine ⟨fun hij => ?_, (t.ready j (mem hj)).2⟩
    obtain rfl := Option.some_inj.mp hij
    exact nodup.1 hj
  · intro j q hq hj
    have found := t.admitted j q hq nofun
    rw [hready] at found
    rcases List.mem_cons.mp found with rfl | found
    · exact absurd rfl hj
    · exact found
  · intro j hj
    obtain rfl := Option.some_inj.mp hj
    obtain ⟨-, x, hx, -⟩ := t.ready i (hready ▸ List.mem_cons_self)
    exact ⟨(List.getElem?_eq_some_iff.mp hx).1, t.holds_of_underway⟩

/-- A slot that was given up is free again, or goes to an item that waits for one. -/
theorem Tracked.releaseSlot (t : Tracked settings s begun ps none 1 h st) :
    Tracked settings s begun ps none 0 h st.releaseSlot := by
  have slots := t.slots
  unfold State.releaseSlot
  split
  · exact { t with slots := by dsimp only; omega }
  · rename_i j queue _
    split
    · rename_i limit q hq
      obtain ⟨p, hp, hown, rfl, -⟩ := t.items j _ hq nofun
      obtain ⟨hj, hjq⟩ := List.getElem?_eq_some_iff.mp hq
      have self : (st.items.set j (.admitted q))[j]? = some (.admitted q) :=
        List.getElem?_set_self hj
      have others {k : Nat} (hk : j ≠ k) : (st.items.set j (.admitted q))[k]? = st.items[k]? :=
        List.getElem?_set_ne hk
      have mem {k : Nat} : k ∈ (if st.ready.contains j then st.ready else st.ready ++ [j]) ↔
          k ∈ st.ready ∨ k = j := by
        split
        · rename_i hc
          have hc : j ∈ st.ready := by simpa using hc
          exact ⟨.inl, fun hk => hk.elim id fun hk => hk ▸ hc⟩
        · rw [List.mem_append, List.mem_singleton]
      refine { t with
        known := ?_, items := ?_, nodup := ?_, ready := ?_, admitted := ?_, current := nofun
        slots := ?_ }
      · intro e he
        simpa only [List.length_set] using t.known e he
      · intro k x hx _
        by_cases hk : j = k
        · subst hk
          obtain rfl := Option.some_inj.mp (self.symm.trans hx)
          exact ⟨q, hp, hown, rfl⟩
        · exact t.items k x ((others hk).symm.trans hx) nofun
      · dsimp only
        split
        · exact t.nodup
        · rename_i hc
          have hc : j ∉ st.ready := by simpa using hc
          exact List.nodup_append.mpr ⟨t.nodup, List.pairwise_singleton _ j, fun a ha b hb hab =>
            hc (List.mem_singleton.mp hb ▸ hab ▸ ha)⟩
      · intro k hk
        refine ⟨nofun, ?_⟩
        by_cases hjk : j = k
        · subst hjk
          exact ⟨_, self, trivial⟩
        · obtain ⟨-, x, hx, due⟩ := t.ready k ((mem.mp hk).resolve_right fun h => hjk h.symm)
          exact ⟨x, (others hjk).trans hx, due⟩
      · intro k q' hk _
        refine mem.mpr ?_
        by_cases hjk : j = k
        · exact .inr hjk.symm
        · exact .inl (t.admitted k q' ((others hjk).symm.trans hk) nofun)
      · dsimp only
        rw [List.countP_set hj, hjq]
        simp only [Progress.holds, Bool.false_eq_true, if_true, if_false]
        omega
    · exact { t with slots := by dsimp only; omega }

variable {t₀ : Instant} {l : Due} {span : Span}

theorem Tracked.finish (t : Tracked settings s begun ps (some i) 0 h st)
    (hx : st.items[i]? = some x) (holds : x.holds) (hp : ps[i]? = some p) {e : Event}
    (hitem : e.item = i) (htime : e.time = st.now) (hstart : e.isStart = false)
    (life : Life settings s begun i p (eventsOf h i ++ [e]) r) :
    Tracked settings s begun ps none 0 (h ++ [e]) (st.finish i r) := by
  subst hitem
  have hi := (List.getElem?_eq_some_iff.mp hx).1
  have logged := t.log rfl htime (fun hs => absurd (hstart.symm.trans hs) nofun)
  have ended : ¬ underway (eventsOf (h ++ [e]) e.item) := by
    rw [eventsOf_append_self, underway_append, hstart]
    nofun
  have gone := logged.put (n := 1) (y := .ended r) hx (by rw [holds]; rfl)
    fun hu => absurd hu ended
  refine Tracked.releaseSlot (gone.settle (List.getElem?_set_self hi) hp ?_ nofun)
  rw [eventsOf_append_self]
  exact life

/-- The current item has its slot and its time; it goes on until it blocks or ends. -/
theorem Tracked.proceed (t : Tracked settings s begun ps (some i) 0 h st)
    (hx : st.items[i]? = some x) (holds : x.holds) (hp : ps[i]? = some p)
    (own : eventsOf h i = [⟨t₀, i, .started⟩])
    (going : Progress.Going settings begun st.now t₀ l.time span)
    (comes : ∀ w x, (q.advance s st.now w).1 = x → p.Comes s t₀ x st.now) :
    Tracked settings s begun ps none 0 (h ++ st.proceedEvents s i l span q)
      (st.proceed s i l span q) := by
  have hi := (List.getElem?_eq_some_iff.mp hx).1
  unfold State.proceed proceedEvents
  have here := comes st.world _ rfl
  rcases hadvance : q.advance s st.now st.world with ⟨r | ⟨wake, rest⟩, w⟩ <;>
    rw [hadvance] at here
  · have elsewhere : Tracked settings s begun ps (some i) 0 h { st with world := w } :=
      t.of_eq rfl rfl rfl rfl
    refine elsewhere.finish hx holds hp rfl rfl rfl ?_
    rw [own]
    exact .finished going.start going.past (going.until_eq ▸ going.ahead) going.within here
  · dsimp only
    split
    · rename_i hlimit
      have elsewhere : Tracked settings s begun ps (some i) 0 h { st with world := w } :=
        t.of_eq rfl rfl rfl rfl
      have now : st.now = l.time := Nat.le_antisymm going.ahead hlimit
      refine elsewhere.finish hx holds hp rfl rfl rfl ?_
      rw [own]
      exact .timedOut going.start (Nat.le_trans going.past t.now_le) (now.trans going.until_eq)
        (now ▸ going.span_eq) going.within here (.inl rfl)
    · have asleep := t.put (y := .asleep ⟨wake, st.turns⟩ l span rest) hx
        (by rw [holds]; rfl) fun _ => rfl
      rw [List.append_nil]
      refine (asleep.settle (List.getElem?_set_self hi) hp ?_ nofun).of_eq rfl rfl rfl rfl
      exact ⟨t₀, own, going, st.now, here, Nat.le_refl _, Nat.le_max_left _ _⟩

theorem Tracked.start (t : Tracked settings s begun ps (some i) 0 h st)
    (hx : st.items[i]? = some x) (holds : x.holds) (hp : ps[i]? = some p)
    (own : eventsOf h i = []) :
    Tracked settings s begun ps none 0
      (h ++ st.startEvents settings (begun + settings.batchTimeout) s i p)
      (st.start settings (begun + settings.batchTimeout) s i p) := by
  unfold State.start startEvents
  split
  · rename_i within
    have logged := t.log (e := ⟨st.now, i, .started⟩) rfl rfl fun _ => ⟨x, hx, holds⟩
    have started : eventsOf (h ++ [⟨st.now, i, .started⟩]) i = [⟨st.now, i, .started⟩] := by
      have self := eventsOf_append_self h ⟨st.now, i, .started⟩
      rwa [own] at self
    have going : Progress.Going settings begun st.now st.now
        (limitFrom settings (begun + settings.batchTimeout) st.now)
        (limitAt settings (begun + settings.batchTimeout)
          (limitFrom settings (begun + settings.batchTimeout) st.now)) :=
      ⟨t.begun_le, Nat.le_refl _, Nat.le_min.mpr ⟨Nat.le_add_right _ _, t.now_le⟩, rfl, rfl, within⟩
    have done := logged.proceed (l := ⟨_, st.turns + 1⟩) hx holds hp started going
      fun w _ pause => .here w pause
    rw [List.append_assoc] at done
    exact done
  · rename_i beyond
    refine t.finish hx holds hp rfl rfl rfl ?_
    rw [own]
    exact .crashed t.begun_le t.now_le (Nat.le_of_not_lt beyond)

theorem Tracked.enter (t : Tracked settings s begun ps none 0 h st)
    (hp : ps[st.items.length]? = some p) :
    Tracked settings s begun ps none 0
      (h ++ st.enterEvents settings (begun + settings.batchTimeout) s p)
      (st.enter settings (begun + settings.batchTimeout) s p) := by
  have last (x : Progress I) : (st.items ++ [x])[st.items.length]? = some x :=
    List.getElem?_concat_length
  have own : eventsOf h st.items.length = [] := by
    refine List.filter_eq_nil_iff.mpr fun e he heq => ?_
    exact absurd (t.known e he) (by rw [beq_iff_eq.mp heq]; exact Nat.lt_irrefl _)
  unfold State.enter enterEvents
  dsimp only
  split
  · rename_i hfree
    have entered := t.append (x := .admitted p) (n := st.free - 1) (Nat.sub_add_cancel hfree)
    exact entered.start (last _) rfl hp own
  · split
    · rename_i hlate
      have now := Nat.le_antisymm t.now_le hlate
      have entered := t.append (x := .ended (.ok (.timedOut st.items.length settings.batchTimeout)))
        (n := st.free) rfl
      have logged := entered.log
        (e := ⟨st.now, st.items.length, .timedOut settings.batchTimeout⟩) rfl rfl nofun
      refine logged.settle (last _) hp ?_ nofun
      have self := eventsOf_append_self h
        ⟨st.now, st.items.length, .timedOut settings.batchTimeout⟩
      rw [own] at self
      rw [self]
      exact .neverStarted now
    · have entered := t.append (x := .waiting ⟨begun + settings.batchTimeout, st.turns⟩ p)
        (n := st.free) rfl
      rw [List.append_nil]
      exact (entered.settle (last _) hp ⟨own, rfl, rfl⟩ nofun).of_eq rfl rfl rfl rfl

/-- Whoever is ready and stands first can go on. -/
theorem Tracked.resume (t : Tracked settings s begun ps none 0 h st) {rest : List Nat}
    (hready : st.ready = i :: rest) :
    ∃ st', resume? settings (begun + settings.batchTimeout) s { st with ready := rest } i =
        some st' ∧
      Tracked settings s begun ps none 0
        (h ++ st.resumeEvents settings (begun + settings.batchTimeout) s i) st' := by
  obtain ⟨-, x, hx, due⟩ := t.ready i (hready ▸ List.mem_cons_self)
  obtain ⟨p, hp, tells⟩ := t.items i x hx nofun
  have popped := t.pop hready
  unfold State.resume? resumeEvents
  rw [hx]
  dsimp only
  cases x with
  | waiting limit q =>
    obtain ⟨own, rfl, hlimit⟩ := tells
    have hi := (List.getElem?_eq_some_iff.mp hx).1
    have now := Nat.le_antisymm t.now_le (hlimit ▸ due)
    have logged := popped.log (e := ⟨st.now, i, .timedOut settings.batchTimeout⟩) rfl rfl nofun
    have self := eventsOf_append_self h ⟨st.now, i, .timedOut settings.batchTimeout⟩
    rw [own] at self
    have gone := logged.put (n := 0) (y := .ended (.ok (.timedOut i settings.batchTimeout))) hx rfl
      fun hu => by rw [self] at hu; cases hu
    refine ⟨_, rfl, (gone.settle (List.getElem?_set_self hi) hp ?_ nofun).of_eq rfl rfl rfl rfl⟩
    rw [self]
    exact .neverStarted now
  | admitted q =>
    obtain ⟨own, rfl⟩ := tells
    exact ⟨_, rfl, popped.start hx rfl hp own⟩
  | asleep wake limit span q =>
    obtain ⟨t₀, own, going, t₁, comes, before, until_reply⟩ := tells
    dsimp only
    split
    · rename_i hwake
      have now : st.now = max t₁ wake.time :=
        Nat.le_antisymm until_reply (Nat.max_le.mpr ⟨before, hwake⟩)
      refine ⟨_, rfl, popped.proceed hx rfl hp own going fun w _ pause => ?_⟩
      dsimp only at pause ⊢
      rw [now] at pause ⊢
      exact comes.snoc pause
    · rename_i hwake
      have now := Nat.le_antisymm going.ahead (due.resolve_left hwake)
      refine ⟨_, rfl, popped.finish hx rfl hp rfl rfl rfl ?_⟩
      rw [own]
      exact .timedOut going.start (Nat.le_trans going.past t.now_le) (now.trans going.until_eq)
        (now ▸ going.span_eq) going.within comes (.inr ⟨before, Nat.lt_of_not_le hwake⟩)
  | ended r => cases due

/-- The items that are due next are all those, and each once, that are due at the earliest time. -/
theorem nextDue?_eq_some {items : List (Progress I)} {time : Instant} {due : List Nat}
    (hd : nextDue? items = some (time, due)) :
    due ≠ [] ∧ due.Nodup ∧
      (∀ j ∈ due, ∃ x d, items[j]? = some x ∧ x.due? = some d ∧ d.time = time) ∧
      ∀ x ∈ items, ∀ d, x.due? = some d → time ≤ d.time := by
  unfold nextDue? at hd
  dsimp only at hd
  generalize hdues : items.zipIdx.filterMap (fun x => x.1.due?.map fun d => (d, x.2)) = dues at hd
  have mem {d : Due} {j : Nat} : (d, j) ∈ dues ↔ ∃ x, items[j]? = some x ∧ x.due? = some d := by
    rw [← hdues, List.mem_filterMap]
    constructor
    · rintro ⟨⟨x, k⟩, hx, hdue⟩
      obtain ⟨d', hd', heq⟩ := Option.map_eq_some_iff.mp hdue
      cases heq
      exact ⟨x, List.mem_zipIdx_iff_getElem?.mp hx, hd'⟩
    · rintro ⟨x, hx, hdue⟩
      exact ⟨(x, j), List.mem_zipIdx_iff_getElem?.mpr hx, by rw [hdue]; rfl⟩
  have nodup : (dues.map (·.2)).Nodup := by
    have each : (items.zipIdx.map (·.2)).Nodup := by
      rw [List.zipIdx_map_snd]
      exact List.nodup_range'
    rw [← hdues, List.map_filterMap]
    refine List.pairwise_filterMap.mpr ((List.pairwise_map.mp each).imp ?_)
    rintro ⟨x, j⟩ ⟨y, k⟩ hjk b hb b' hb'
    simp only [Option.map_map, Option.map_eq_some_iff] at hb hb'
    obtain ⟨-, -, rfl⟩ := hb
    obtain ⟨-, -, rfl⟩ := hb'
    exact hjk
  split at hd
  · cases hd
  · rename_i earliest hmin
    cases hd
    obtain ⟨first, least⟩ := List.min?_eq_some_iff.mp hmin
    have perm := List.mergeSort_perm (dues.filter (·.1.time = time)) fun a b => a.1.turn ≤ b.1.turn
    refine ⟨?_, ?_, ?_, ?_⟩
    · obtain ⟨⟨d, j⟩, hdj, rfl⟩ := List.mem_map.mp first
      have found : (d, j) ∈ dues.filter (·.1.time = d.time) :=
        List.mem_filter.mpr ⟨hdj, decide_eq_true rfl⟩
      exact List.ne_nil_of_mem (List.mem_map.mpr ⟨_, perm.mem_iff.mpr found, rfl⟩)
    · exact ((perm.map _).nodup_iff).mpr ((List.filter_sublist.map _).nodup nodup)
    · intro j hj
      obtain ⟨⟨d, k⟩, hdk, rfl⟩ := List.mem_map.mp hj
      obtain ⟨hmem, htime⟩ := List.mem_filter.mp (perm.mem_iff.mp hdk)
      obtain ⟨x, hx, hdue⟩ := mem.mp hmem
      exact ⟨x, d, hx, hdue, of_decide_eq_true htime⟩
    · intro x hx d hdue
      obtain ⟨j, hj⟩ := List.mem_iff_getElem?.mp hx
      exact least _ (List.mem_map.mpr ⟨(d, j), mem.mpr ⟨x, hj, hdue⟩, rfl⟩)

theorem due?_of_nextDue?_eq_none {items : List (Progress I)} (hd : nextDue? items = none) :
    ∀ x ∈ items, x.due? = none := by
  unfold nextDue? at hd
  dsimp only at hd
  split at hd
  · rename_i hmin
    intro x hx
    rw [List.min?_eq_none_iff, List.map_eq_nil_iff, List.filterMap_eq_nil_iff] at hmin
    obtain ⟨j, hj⟩ := List.mem_iff_getElem?.mp hx
    exact Option.map_eq_none_iff.mp (hmin (x, j) (List.mem_zipIdx_iff_getElem?.mpr hj))
  · cases hd

theorem Tracked.await (t : Tracked settings s begun ps none 0 h st) :
    Tracked settings s begun ps none 0 h st.await := by
  unfold State.await
  split
  · exact t
  · rename_i hnone
    split
    · exact t
    · rename_i time due hdue
      obtain ⟨nonempty, nodup, each, least⟩ := nextDue?_eq_some hdue
      have hle : st.now ≤ max st.now time := Nat.le_max_left _ _
      have wait {x : Progress I} (hx : x ∈ st.items) (d : Due) (hd : x.due? = some d) :
          max st.now time ≤ max st.now d.time :=
        Nat.max_le.mpr ⟨Nat.le_max_left _ _, Nat.le_trans (least x hx d hd) (Nat.le_max_right _ _)⟩
      refine { t with
        begun_le := Nat.le_trans t.begun_le hle, now_le := ?_
        past := fun e he => Nat.le_trans (t.past e he) hle, items := ?_, nodup := nodup, ready := ?_
        admitted := ?_ }
      · obtain ⟨j, hj⟩ := List.exists_mem_of_ne_nil _ nonempty
        obtain ⟨x, d, hx, hd, rfl⟩ := each j hj
        obtain ⟨p, -, tells⟩ := t.items j x hx nofun
        exact Nat.max_le.mpr ⟨t.now_le, tells.due_le hd⟩
      · intro j x hx hj
        obtain ⟨p, hp, tells⟩ := t.items j x hx hj
        exact ⟨p, hp, tells.wait hle (wait (List.mem_of_getElem? hx))⟩
      · intro j hj
        obtain ⟨x, d, hx, hd, rfl⟩ := each j hj
        exact ⟨nofun, x, hx, Progress.isDue_of_due? hd (Nat.le_max_right _ _)⟩
      · intro j q hq hj
        exact absurd (t.admitted j q hq hj) (hnone ▸ List.not_mem_nil)

/-- When nobody is ready after a wait, all have ended. -/
theorem Tracked.all_ended (t : Tracked settings s begun ps none 0 h st)
    (hready : st.await.ready = []) : ∀ x ∈ st.items, ∃ r, x = .ended r := by
  intro x hx
  obtain ⟨j, hj⟩ := List.mem_iff_getElem?.mp hx
  have still : st.ready = [] ∧ x.due? = none := by
    unfold State.await at hready
    split at hready
    · rename_i hsome
      rw [hsome] at hready
      cases hready
    · rename_i hnone
      split at hready
      · exact ⟨hnone, due?_of_nextDue?_eq_none ‹_› x hx⟩
      · rename_i time due hdue
        exact absurd hready (nextDue?_eq_some hdue).1
  rcases Progress.due?_eq_none still.2 with ⟨q, rfl⟩ | ended
  · have mem := t.admitted j q hj nofun
    rw [still.1] at mem
    cases mem
  · exact ended

theorem Tracked.next (t : Tracked settings s begun ps none 0 h st) :
    match st.next? settings (begun + settings.batchTimeout) s with
    | none => ∀ x ∈ st.items, ∃ r, x = .ended r
    | some st' => Tracked settings s begun ps none 0
        (h ++ st.nextEvents settings (begun + settings.batchTimeout) s) st' := by
  unfold State.next? nextEvents
  dsimp only
  cases hready : st.await.ready with
  | nil => exact t.all_ended hready
  | cons i rest =>
    obtain ⟨st', hst, tracked⟩ := t.await.resume hready
    dsimp only
    rw [hst]
    exact tracked

theorem Tracked.complete (t : Tracked settings s begun ps none 0 h st) :
    Tracked settings s begun ps none 0
        (h ++ st.completeEvents settings (begun + settings.batchTimeout) s)
        (st.complete settings (begun + settings.batchTimeout) s) ∧
      ∀ x ∈ (st.complete settings (begun + settings.batchTimeout) s).items, ∃ r, x = .ended r := by
  fun_induction State.complete settings (begun + settings.batchTimeout) s st generalizing h with
  | case1 st hst =>
    have ended := t.next
    rw [hst] at ended
    have quiet : st.completeEvents settings (begun + settings.batchTimeout) s = [] := by
      rw [completeEvents]
      split
      · rfl
      · rename_i hst'
        cases hst.symm.trans hst'
    rw [quiet, List.append_nil]
    exact ⟨t, ended⟩
  | case2 st st' hst ih =>
    have tracked := t.next
    rw [hst] at tracked
    have more : st.completeEvents settings (begun + settings.batchTimeout) s =
        st.nextEvents settings (begun + settings.batchTimeout) s ++
          st'.completeEvents settings (begun + settings.batchTimeout) s := by
      rw [completeEvents]
      split
      · rename_i hst'
        cases hst.symm.trans hst'
      · rename_i hst'
        cases hst.symm.trans hst'
        rfl
    rw [more, ← List.append_assoc]
    exact ih tracked

theorem Tracked.enterAll (t : Tracked settings s begun ps none 0 h st)
    {rest : List (Activity I ItemResult)} (hrest : ps.drop st.items.length = rest) :
    Tracked settings s begun ps none 0
      (h ++ st.enterAllEvents settings (begun + settings.batchTimeout) s rest)
      (rest.foldl (State.enter settings (begun + settings.batchTimeout) s) st) := by
  induction rest generalizing h st with
  | nil =>
    rw [enterAllEvents, List.append_nil]
    exact t
  | cons p rest ih =>
    obtain ⟨hlt, hp, hdrop⟩ : ∃ hlt : st.items.length < ps.length, ps[st.items.length] = p ∧
        ps.drop (st.items.length + 1) = rest := by
      have hlt : st.items.length < ps.length := by
        apply Nat.lt_of_not_le
        intro hle
        rw [List.drop_eq_nil_of_le hle] at hrest
        cases hrest
      rw [List.drop_eq_getElem_cons hlt, List.cons.injEq] at hrest
      exact ⟨hlt, hrest⟩
    have entered := t.enter (hp ▸ List.getElem?_eq_getElem hlt)
    rw [enterAllEvents, ← List.append_assoc]
    exact ih entered (by rw [length_enter, hdrop])

end State

/-- The history of a batch tells of every item where it stands in the end, and all have ended. -/
theorem State.tracked_join (settings : BatchSettings) (s : Surroundings I W)
    (items : List (Activity I ItemResult)) (begun : Instant) (w : W) :
    let deadline := begun + settings.batchTimeout
    let init : State I W := ⟨[], [], [], max settings.concurrency 1, 0, begun, w⟩
    let last := (items.foldl (State.enter settings deadline s) init).complete settings deadline s
    Tracked settings s begun items none 0 (history settings s items begun w) last ∧
      ∀ x ∈ last.items, ∃ r, x = .ended r := by
  have init : State.Tracked settings s begun items none 0 []
      (⟨[], [], [], max settings.concurrency 1, 0, begun, w⟩ : State I W) :=
    { begun_le := Nat.le_refl _
      now_le := Nat.le_add_right _ _
      sorted := .nil
      past := List.forall_mem_nil _
      known := List.forall_mem_nil _
      items := fun j x hx => by cases hx
      nodup := .nil
      ready := List.forall_mem_nil _
      admitted := fun j q hq => by cases hq
      current := nofun
      slots := rfl
      within := fun past hpast => by
        have none (i : Nat) (_ : i ∈ List.range items.length) :
            ¬ underway (eventsOf [] i) = true := nofun
        rw [List.prefix_nil.mp hpast, inProgress, List.countP_eq_zero.mpr none]
        exact Nat.zero_le _ }
  exact (init.enterAll rfl).complete

variable {settings : BatchSettings} {task : Nat → Nat} {s : Surroundings I W}
variable {items : List (Activity I ItemResult)} {begun now : Instant} {w w' : W}
variable {results : List ItemResult}

/-- The end of each item's task is the one that its events lead to. -/
theorem join_life (settings : BatchSettings) (s : Surroundings I W) (begun : Instant) (w : W)
    {i : Nat} {p : Activity I ItemResult} (hp : items[i]? = some p) :
    ∃ r, (join settings (begun + settings.batchTimeout) s items begun w).1[i]? = some r ∧
      Life settings s begun i p (eventsOf (history settings s items begun w) i) r := by
  obtain ⟨tracked, ended⟩ := State.tracked_join settings s items begun w
  have hi : i < (join settings (begun + settings.batchTimeout) s items begun w).1.length :=
    length_join settings (begun + settings.batchTimeout) s items begun w ▸
      (List.getElem?_eq_some_iff.mp hp).1
  unfold join at hi ⊢
  rw [List.length_mapIdx] at hi
  have hx := List.getElem?_eq_getElem hi
  obtain ⟨r, hr⟩ := ended _ (List.getElem_mem hi)
  rw [hr] at hx
  obtain ⟨p', hp', tells⟩ := tracked.items i _ hx nofun
  obtain rfl := Option.some_inj.mp (hp.symm.trans hp')
  refine ⟨r, ?_, tells⟩
  dsimp only
  rw [List.getElem?_mapIdx, hx]
  rfl

/-- Whatever the activities of the items ask for and however long the replies take, a batch that
comes to results is orderly. -/
theorem process_orderly
    (hprocess : process settings task s items begun w = .ok (results, now, w')) :
    Orderly settings task s begun items (history settings s items begun w) results := by
  obtain ⟨tracked, -⟩ := State.tracked_join settings s items begun w
  have life (i : Nat) (p : Activity I ItemResult) (hp : items[i]? = some p) :
      ∃ r, results[i]? = some (.ofEnd i (task i) r) ∧
        Life settings s begun i p (eventsOf (history settings s items begun w) i) r := by
    obtain ⟨r, hr, life⟩ := join_life settings s begun w hp
    refine ⟨r, ?_, life⟩
    rw [getElem?_of_process hprocess, hr]
    rfl
  refine ⟨length_process hprocess, ?_, tracked.sorted, ?_, life, tracked.within, ?_⟩
  · intro e he
    rw [← length_join settings (begun + settings.batchTimeout) s items begun w]
    unfold join
    rw [List.length_mapIdx]
    exact tracked.known e he
  · exact fun e he => Nat.le_trans (tracked.past e he) tracked.now_le
  · refine List.countP_eq_zero.mpr fun i hi => ?_
    obtain ⟨r, -, hlife⟩ := life i _ (List.getElem?_eq_getElem (List.mem_range.mp hi))
    exact hlife.not_underway

end PlaybookEngine.Batch
