import PlaybookEngine.Proofs.Batch.Assurance
import PlaybookEngine.Proofs.Engine.Share
import PlaybookEngine.Proofs.Engine.Surroundings

namespace PlaybookEngine

namespace ArtifactStore

/-- In the store, an execution with the id finds its own artifacts as in the other store. -/
structure Serves (capability : String) (size : Nat) (st : ArtifactStore) (x : String)
    (own : ArtifactStore) : Prop where
  length : x.length = size
  plain : '/' ∉ x.toList
  agree : Agree ⟨capability, x⟩ st own

variable {capability : String} {size : Nat} {st own other : ArtifactStore} {x y : String}
variable {r : StoreRequest}

theorem Serves.answer (h : Serves capability size st x own) (hr : Lane.Allows ⟨capability, x⟩ r) :
    own.MayReply r (st.answer r).1 ∧ Serves capability size (st.answer r).2 x (own.answer r).2 :=
  have ⟨reply, agree⟩ := h.agree.answer h.plain hr
  ⟨reply, h.length, h.plain, agree⟩

theorem Serves.answer_outside (h : Serves capability size st x own)
    (hy : Serves capability size st y other) (hne : y ≠ x) (hr : Lane.Allows ⟨capability, y⟩ r) :
    Serves capability size (st.answer r).2 x own := by
  refine ⟨h.length, h.plain, h.agree.answer_outside ?_ ?_ ?_ ?_ hr⟩
  · exact hy.plain
  · rfl
  · exact hy.length.trans h.length.symm
  · exact hne

end ArtifactStore

namespace Share

/-- How many ids may still be drawn. -/
def allLeft : List Share → Nat
  | [] => 0
  | v :: rest => v.left + allLeft rest

theorem allLeft_replicate (n : Nat) (v : Share) : allLeft (List.replicate n v) = n * v.left := by
  induction n with
  | zero => simp [allLeft]
  | succ n ih =>
    rw [List.replicate_succ, allLeft, ih, Nat.succ_mul]
    omega

theorem allLeft_set {vs : List Share} {i : Nat} {v : Share} (hv : vs[i]? = some v) (v' : Share) :
    allLeft (vs.set i v') + v.left = allLeft vs + v'.left := by
  induction vs generalizing i with
  | nil => cases hv
  | cons u rest ih =>
    cases i with
    | zero =>
      cases hv
      simp only [allLeft, List.set_cons_zero]
      omega
    | succ i =>
      have others := ih hv
      simp only [allLeft, List.set_cons_succ]
      omega

theorem getElem?_set_cases {vs : List Share} {i j : Nat} {v' u : Share}
    (h : (vs.set i v')[j]? = some u) : (i = j ∧ u = v') ∨ (i ≠ j ∧ vs[j]? = some u) := by
  rw [List.getElem?_set] at h
  split at h
  · rename_i hij
    split at h
    · exact .inl ⟨hij, (Option.some_inj.mp h).symm⟩
    · cases h
  · rename_i hij
    exact .inr ⟨hij, h⟩

/-- No id is the one of two executions. -/
def Apart (vs : List Share) : Prop :=
  ∀ (i j : Nat) (v u : Share) x, vs[i]? = some v → vs[j]? = some u →
    v.id = some x → u.id = some x → i = j

/-- One of the shares is replaced; the id that it has then is its own or nobody's. -/
theorem Apart.set {vs : List Share} (h : Apart vs) {i : Nat} {v v' : Share} (hv : vs[i]? = some v)
    (hid : ∀ x, v'.id = some x → v.id = some x ∨
      ∀ (j : Nat) (u : Share), vs[j]? = some u → u.id ≠ some x) : Apart (vs.set i v') := by
  have other (j : Nat) (u : Share) (x : String) (hu : vs[j]? = some u) (hx : v'.id = some x)
      (hx' : u.id = some x) : i = j := by
    rcases hid x hx with hown | hfree
    · exact h i j v u x hv hu hown hx'
    · exact absurd hx' (hfree j u hu)
  intro j k u u' x hu hu' hx hx'
  rcases getElem?_set_cases hu with ⟨rfl, rfl⟩ | ⟨-, first⟩
  · rcases getElem?_set_cases hu' with ⟨rfl, rfl⟩ | ⟨-, second⟩
    · rfl
    · exact other k u' x second hx hx'
  · rcases getElem?_set_cases hu' with ⟨rfl, rfl⟩ | ⟨-, second⟩
    · exact (other j u x first hx' hx).symm
    · exact h j k u u' x first second hx hx'

end Share

namespace World

variable {T S : Type} [IdSource S]

/-- Executions with these shares are under way, and the store was `st` in the beginning. -/
structure Together (usable : T → Prop) (capability : String) (size : Nat) (st : ArtifactStore)
    (w : World T S) (vs : List Share) : Prop where
  tools : usable w.tools
  nodup : (IdSource.upcoming w.ids (Share.allLeft vs)).Nodup
  ahead : ∀ x ∈ IdSource.upcoming w.ids (Share.allLeft vs), w.store.Serves capability size x st
  fresh : ∀ (i : Nat) (v : Share), vs[i]? = some v → v.id = none → v.store = st
  own : ∀ (i : Nat) (v : Share) x, vs[i]? = some v → v.id = some x →
    w.store.Serves capability size x v.store
  drawn : ∀ (i : Nat) (v : Share) x, vs[i]? = some v → v.id = some x →
    x ∉ IdSource.upcoming w.ids (Share.allLeft vs)
  apart : Share.Apart vs

namespace Together

variable {usable : T → Prop} {capability : String} {size : Nat} {st : ArtifactStore}
variable {w : World T S} {vs : List Share} {i : Nat} {v : Share}

theorem withTools (h : w.Together usable capability size st vs) {t : T} (ht : usable t) :
    Together usable capability size st { w with tools := t } vs :=
  ⟨ht, h.nodup, h.ahead, h.fresh, h.own, h.drawn, h.apart⟩

/-- One of the executions draws an id. -/
theorem draw (h : w.Together usable capability size st vs) (hv : vs[i]? = some v)
    (hleft : 0 < v.left) :
    Together usable capability size st { w with ids := (IdSource.fresh w.ids).2 }
      (vs.set i (v.draw (IdSource.fresh w.ids).1)) := by
  have count : Share.allLeft vs = Share.allLeft (vs.set i (v.draw (IdSource.fresh w.ids).1)) + 1 := by
    have sums := Share.allLeft_set hv (v.draw (IdSource.fresh w.ids).1)
    rw [show (v.draw (IdSource.fresh w.ids).1).left = v.left - 1 from rfl] at sums
    omega
  obtain ⟨tools, nodup, ahead, noId, own, drawn, apart⟩ := h
  rw [count] at nodup ahead drawn
  obtain ⟨hhead, htail⟩ := List.nodup_cons.mp nodup
  have head := ahead _ List.mem_cons_self
  have id_draw (x : String) (hx : (v.draw (IdSource.fresh w.ids).1).id = some x) :
      v.id = some x ∨ (v.id = none ∧ x = (IdSource.fresh w.ids).1) := by
    cases hid : v.id with
    | none =>
      rw [Share.draw, hid] at hx
      exact .inr ⟨rfl, (Option.some_inj.mp hx).symm⟩
    | some y =>
      rw [Share.draw, hid] at hx
      exact .inl hx
  refine ⟨tools, htail, ?_, ?_, ?_, ?_, ?_⟩
  · intro x hx
    apply ahead
    exact List.mem_cons_of_mem _ hx
  · intro j u hu hid
    rcases Share.getElem?_set_cases hu with ⟨-, rfl⟩ | ⟨-, hu⟩
    · cases hv' : v.id <;> simp [Share.draw, hv'] at hid
    · exact noId j u hu hid
  · intro j u x hu hx
    rcases Share.getElem?_set_cases hu with ⟨-, rfl⟩ | ⟨-, hu⟩
    · rcases id_draw x hx with hx | ⟨hnone, rfl⟩
      · exact own i v x hv hx
      · rw [show (v.draw (IdSource.fresh w.ids).1).store = v.store from rfl, noId i v hv hnone]
        exact head
    · exact own j u x hu hx
  · intro j u x hu hx
    rcases Share.getElem?_set_cases hu with ⟨-, rfl⟩ | ⟨-, hu⟩
    · rcases id_draw x hx with hx | ⟨-, rfl⟩
      · intro hmem
        apply drawn i v x hv hx
        exact List.mem_cons_of_mem _ hmem
      · exact hhead
    · intro hmem
      apply drawn j u x hu hx
      exact List.mem_cons_of_mem _ hmem
  · apply apart.set hv
    intro x hx
    rcases id_draw x hx with hown | ⟨-, rfl⟩
    · exact .inl hown
    · right
      intro j u hu hmem
      exact drawn j u _ hu hmem List.mem_cons_self

/-- One of the executions asks for its own artifacts. -/
theorem ask (h : w.Together usable capability size st vs) (hv : vs[i]? = some v)
    {r : StoreRequest} (hr : v.Allows capability r) :
    v.store.MayReply r (w.store.answer r).1 ∧
      Together usable capability size st { w with store := (w.store.answer r).2 }
        (vs.set i (v.asked r)) := by
  obtain ⟨y, hy, hr⟩ := hr
  have served := h.own i v y hv hy
  obtain ⟨reply, own⟩ := served.answer hr
  have count : Share.allLeft (vs.set i (v.asked r)) = Share.allLeft vs :=
    Nat.add_right_cancel (Share.allLeft_set hv (v.asked r))
  have id_asked {x : String} (hx : (v.asked r).id = some x) : v.id = some x := hx
  refine ⟨reply, h.tools, ?_, ?_, ?_, ?_, ?_, ?_⟩
  · rw [count]
    exact h.nodup
  · rw [count]
    intro x hx
    have hne : y ≠ x := by
      intro hh
      subst hh
      exact h.drawn i v y hv hy hx
    exact (h.ahead x hx).answer_outside served hne hr
  · intro j u hu hid
    rcases Share.getElem?_set_cases hu with ⟨-, rfl⟩ | ⟨-, hu⟩
    · rw [show (v.asked r).id = v.id from rfl, hy] at hid
      cases hid
    · exact h.fresh j u hu hid
  · intro j u x hu hx
    rcases Share.getElem?_set_cases hu with ⟨-, rfl⟩ | ⟨hij, hu⟩
    · obtain rfl := Option.some_inj.mp (hy.symm.trans (id_asked hx))
      exact own
    · have hne : y ≠ x := by
        intro hh
        subst hh
        apply hij
        exact h.apart i j v u y hv hu hy hx
      exact (h.own j u x hu hx).answer_outside served hne hr
  · rw [count]
    intro j u x hu hx
    rcases Share.getElem?_set_cases hu with ⟨-, rfl⟩ | ⟨-, hu⟩
    · exact h.drawn i v x hv (id_asked hx)
    · exact h.drawn j u x hu hx
  · apply h.apart.set hv
    intro x hx
    exact .inl (id_asked hx)

/-- At the start nobody has an id. -/
theorem start {n : Nat} (tools : usable w.tools) (nodup : (IdSource.upcoming w.ids (n * 2)).Nodup)
    (formed : ∀ x ∈ IdSource.upcoming w.ids (n * 2), x.length = size ∧ '/' ∉ x.toList) :
    w.Together usable capability size w.store (List.replicate n ⟨none, w.store, 2⟩) := by
  have count := Share.allLeft_replicate n ⟨none, w.store, 2⟩
  have share {i : Nat} {v : Share} (hv : (List.replicate n ⟨none, w.store, 2⟩)[i]? = some v) :
      v = ⟨none, w.store, 2⟩ := List.eq_of_mem_replicate (List.mem_of_getElem? hv)
  refine ⟨tools, ?_, ?_, ?_, ?_, ?_, ?_⟩
  · rw [count]
    exact nodup
  · rw [count]
    intro x hx
    obtain ⟨length, plain⟩ := formed x hx
    exact ⟨length, plain, ArtifactStore.agree_refl _ _⟩
  · intro i v hv _
    rw [share hv]
  · intro i v x hv hx
    rw [share hv] at hx
    cases hx
  · intro i v x hv hx
    rw [share hv] at hx
    cases hx
  · intro i j v u x hv _ hx
    rw [share hv] at hx
    cases hx

/-- A world keeps to the share of each execution, whatever the others ask. -/
theorem keeps [ToolServer T] {answers : ToolAnswers} {limit : Span}
    (h : ToolServer.Steady answers limit usable) :
    Batch.Keeps surroundings (Working.shared answers limit capability)
      (Together (S := S) usable capability size st) := by
  intro i vs hi now r w v K hw hK
  have hv : (vs.set i v)[i]? = some v := List.getElem?_set_self hi
  cases r with
  | freshId =>
    have drawn := hw.draw hv hK.1
    rw [List.set_set] at drawn
    exact ⟨_, hK.2 _, drawn⟩
  | tool r =>
    obtain ⟨reply, usable'⟩ := h.keeps hw.tools now r v hK
    exact ⟨v, reply, hw.withTools usable'⟩
  | store r =>
    obtain ⟨reply, asked⟩ := hw.ask hv hK.1
    rw [List.set_set] at asked
    exact ⟨_, hK.2 _ reply, asked⟩
  | job r => exact hK.elim

end Together

end World

end PlaybookEngine
