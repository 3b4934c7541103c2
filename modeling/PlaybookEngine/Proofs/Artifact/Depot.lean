import PlaybookEngine.Proofs.Artifact.Atomicity
import PlaybookEngine.Proofs.Artifact.Holding
import Mathlib.Logic.Function.Basic

namespace PlaybookEngine

structure Depot (C : Type) where
  store : MemoryStore
  /-- What is left of each call that has begun. -/
  calls : C → Option (Activity Storage (Except StorageError Artifact))

namespace Depot

variable {C : Type}

inductive Event (C : Type)
  /-- A call begins. -/
  | call (c : C) (k : Keeping)
  /-- The next request of a call is answered; the clock shows `now`. -/
  | proceed (c : C) (now : Timestamp)

/-- The size of the content is a word, and a clock can show the time. -/
def Event.Plain : Event C → Prop
  | .call _ k => k.content.size < 0x1_0000_0000_0000_0000
  | .proceed _ now => now.Shown

def empty : Depot C := ⟨.empty, fun _ => none⟩

def result? (σ : Depot C) (c : C) : Option (Except StorageError Artifact) :=
  match σ.calls c with
  | some (.done x) => some x
  | _ => none

def Quiet (σ : Depot C) : Prop := ∀ c, σ.calls c = none ∨ ∃ x, σ.result? c = some x

/-- What is left of a call after its last request, and the store. -/
def put [DecidableEq C] (σ : Depot C) (c : C)
    (p : Activity Storage (Except StorageError Artifact)) (s : MemoryStore) : Depot C :=
  ⟨s, Function.update σ.calls c (some p)⟩

section Steps

variable [DecidableEq C]

/-- The depot after an event; none when the event cannot happen. -/
def step? (σ : Depot C) : Event C → Option (Depot C)
  | .call c k =>
    match σ.calls c with
    | none => some (σ.put c k.activity σ.store)
    | some _ => none
  | .proceed c now =>
    match σ.calls c with
    | some (.ask .now next) => some (σ.put c (next now) σ.store)
    | some (.ask (.store r) next) =>
      let (x, s) := σ.store.answer r
      some (σ.put c (next x) s)
    | _ => none

def run? : Depot C → List (Event C) → Option (Depot C)
  | σ, [] => some σ
  | σ, ev :: rest => (σ.step? ev).bind fun σ => σ.run? rest

end Steps

/-- A call that has begun goes on with what it holds, and before that it holds nothing. -/
def GoesOn : Option (Activity Storage (Except StorageError Artifact)) → Holding → Prop
  | none, h => h = .nothing
  | some p, h => p.Assures Storage.holding h fun x h => h.Comes x

/-- Every entry is held by one call. -/
structure Sound (σ : Depot C) (holds : C → Holding) : Prop where
  goesOn : ∀ c, GoesOn (σ.calls c) (holds c)
  sound : ∀ c, (holds c).Sound
  entries : ∀ key bytes, Fields.get? key σ.store.entries = some bytes ↔
    ∃ c, (holds c).bytes? key = some bytes
  apart : ∀ c c' key, (holds c).bytes? key ≠ none → (holds c').bytes? key ≠ none → c = c'

/-- Artifacts that are kept stay kept. -/
def Lasting (holds holds' : C → Holding) : Prop :=
  ∀ c a bytes, holds c = .kept a bytes → holds' c = .kept a bytes

theorem lasting_refl (holds : C → Holding) : Lasting holds holds := fun _ _ _ h => h

theorem sound_empty : (empty : Depot C).Sound fun _ => .nothing where
  goesOn c := rfl
  sound c := trivial
  entries key bytes := by simp [empty, MemoryStore.empty, Holding.bytes?]
  apart c c' key h := absurd rfl h

section Preservation

variable [DecidableEq C] {σ σ' : Depot C} {holds : C → Holding} {c : C}

theorem lasting_update {next : Holding} (h : ∀ a bytes, holds c ≠ .kept a bytes) :
    Lasting holds (Function.update holds c next) := by
  intro d a bytes hd
  have hdc : d ≠ c := by
    rintro rfl
    exact h a bytes hd
  rw [Function.update_of_ne hdc, hd]

/-- A call goes on with something else: where it held something, the store has what it now holds
there, and what it holds besides lies where the store had nothing. -/
theorem Sound.change (h : σ.Sound holds) {p : Activity Storage (Except StorageError Artifact)}
    {next : Holding} {s : MemoryStore} (hp : GoesOn (some p) next) (hnext : next.Sound)
    (hfree : ∀ key, next.bytes? key ≠ none → (holds c).bytes? key = none →
      Fields.get? key σ.store.entries = none)
    (hstore : ∀ key, Fields.get? key s.entries = (next.bytes? key).or
      (if (holds c).bytes? key = none then Fields.get? key σ.store.entries else none)) :
    (σ.put c p s).Sound (Function.update holds c next) := by
  have others (d : C) (key : String) (hd : d ≠ c) (hdkey : (holds d).bytes? key ≠ none) :
      (holds c).bytes? key = none ∧ next.bytes? key = none := by
    have before : (holds c).bytes? key = none := by
      by_contra hkey
      exact hd (h.apart d c key hdkey hkey)
    refine ⟨before, ?_⟩
    by_contra hkey
    obtain ⟨bytes, hbytes⟩ := Option.ne_none_iff_exists'.mp hdkey
    have there := (h.entries key bytes).mpr ⟨d, hbytes⟩
    rw [hfree key hkey before] at there
    cases there
  refine ⟨fun d => ?_, fun d => ?_, fun key bytes => ?_, fun d d' key hd hd' => ?_⟩
  · change GoesOn (Function.update σ.calls c (some p) d) _
    by_cases hd : d = c
    · subst hd
      rw [Function.update_self, Function.update_self]
      exact hp
    · rw [Function.update_of_ne hd, Function.update_of_ne hd]
      exact h.goesOn d
  · by_cases hd : d = c
    · subst hd
      rw [Function.update_self]
      exact hnext
    · rw [Function.update_of_ne hd]
      exact h.sound d
  · change Fields.get? key s.entries = some bytes ↔ _
    rw [hstore key]
    constructor
    · intro hbytes
      rcases hkey : next.bytes? key with _ | own
      · rw [hkey, Option.none_or] at hbytes
        split at hbytes
        · rename_i hnone
          obtain ⟨d, hd⟩ := (h.entries key bytes).mp hbytes
          have hdc : d ≠ c := by
            rintro rfl
            rw [hnone] at hd
            cases hd
          exact ⟨d, by rw [Function.update_of_ne hdc, hd]⟩
        · cases hbytes
      · rw [hkey, Option.some_or] at hbytes
        exact ⟨c, by rw [Function.update_self, hkey, hbytes]⟩
    · rintro ⟨d, hd⟩
      by_cases hdc : d = c
      · subst hdc
        rw [Function.update_self] at hd
        rw [hd, Option.some_or]
      · rw [Function.update_of_ne hdc] at hd
        obtain ⟨before, now⟩ := others d key hdc (by rw [hd]; nofun)
        rw [now, Option.none_or, if_pos before]
        exact (h.entries key bytes).mpr ⟨d, hd⟩
  · by_cases hdc : d = c <;> by_cases hdc' : d' = c
    · rw [hdc, hdc']
    · subst hdc
      rw [Function.update_self] at hd
      rw [Function.update_of_ne hdc'] at hd'
      exact absurd (others d' key hdc' hd').2 hd
    · subst hdc'
      rw [Function.update_self] at hd'
      rw [Function.update_of_ne hdc] at hd
      exact absurd (others d key hdc hd).2 hd'
    · rw [Function.update_of_ne hdc] at hd
      rw [Function.update_of_ne hdc'] at hd'
      exact h.apart d d' key hd hd'

/-- A call goes on with what it held before. -/
theorem Sound.goOn (h : σ.Sound holds) {p : Activity Storage (Except StorageError Artifact)}
    (hp : GoesOn (some p) (holds c)) : (σ.put c p σ.store).Sound holds := by
  have store (key : String) : Fields.get? key σ.store.entries = ((holds c).bytes? key).or
      (if (holds c).bytes? key = none then Fields.get? key σ.store.entries else none) := by
    rcases hkey : (holds c).bytes? key with _ | bytes
    · simp
    · simpa using (h.entries key bytes).mpr ⟨c, hkey⟩
  have same := h.change hp (h.sound c) (fun key hkey hnone => absurd hnone hkey) store
  rwa [Function.update_eq_self] at same

theorem Sound.writeArtifact (h : σ.Sound holds) {key : ArtifactKey} {bytes : ByteArray}
    {status : ContentStatus}
    {next : Except StorageError String → Activity Storage (Except StorageError Artifact)}
    (hc : σ.calls c = some (.ask (.store (.writeArtifact key bytes status)) next)) :
    ∃ holds', Lasting holds holds' ∧
      (σ.put c (next (σ.store.answer (.writeArtifact key bytes status)).1)
        (σ.store.answer (.writeArtifact key bytes status)).2).Sound holds' := by
  have asked := h.goesOn c
  rw [hc] at asked
  obtain ⟨hnothing, hrefused, hwritten⟩ := asked
  rw [MemoryStore.answer]
  by_cases htaken : σ.store.Taken (key.contentKey status)
  · rw [MemoryStore.create_of_taken htaken]
    refine ⟨holds, lasting_refl holds, h.goOn ?_⟩
    rw [hnothing]
    exact hrefused _
  · rw [MemoryStore.create_of_not_taken htaken]
    refine ⟨_, lasting_update (by simp [hnothing]), h.change hwritten
      (ArtifactKey.not_isSide_contentKey key status) (fun k hk _ => ?_) fun k => ?_⟩
    · have hkey : k = key.contentKey status := by
        by_contra hne
        exact hk (if_neg hne)
      rw [hkey]
      exact not_not.mp htaken
    · rw [Fields.get?_insert, hnothing, Holding.bytes?, Holding.bytes?, if_pos rfl]
      by_cases hk : k = key.contentKey status
      · simp [hk]
      · simp [hk, Ne.symm hk]

theorem Sound.writeMetadata (h : σ.Sound holds) {a : Artifact}
    {next : Except StorageError Unit → Activity Storage (Except StorageError Artifact)}
    (hc : σ.calls c = some (.ask (.store (.writeMetadata a)) next)) :
    ∃ holds', Lasting holds holds' ∧
      (σ.put c (next (σ.store.answer (.writeMetadata a)).1)
        (σ.store.answer (.writeMetadata a)).2).Sound holds' := by
  have asked := h.goesOn c
  rw [hc] at asked
  obtain ⟨bytes, hcontent, hsound, hdescribes, hrefused, hwritten⟩ := asked
  rcases hread : ArtifactKey.ofContentKey? a.storageKey with _ | ⟨k, status⟩
  · rw [MemoryStore.answer, ArtifactKey.read, hread]
    exact ⟨holds, lasting_refl holds, h.goOn (hrefused _)⟩
  · rw [MemoryStore.answer, ArtifactKey.read_eq_ok.mpr hread]
    dsimp only
    by_cases htaken : σ.store.Taken k.metadataKey
    · rw [MemoryStore.create_of_taken htaken]
      exact ⟨holds, lasting_refl holds, h.goOn (hrefused _)⟩
    · rw [MemoryStore.create_of_not_taken htaken]
      have hside : ArtifactKey.side? a.storageKey = some k.metadataKey := by
        rw [ArtifactKey.side?, hread]
        rfl
      have hapart : k.metadataKey ≠ a.storageKey := ArtifactKey.metadataKey_ne hread
      have hplace : ¬ ArtifactKey.IsSide a.storageKey := by
        have held := h.sound c
        rwa [hcontent] at held
      have there : Fields.get? a.storageKey σ.store.entries = some bytes :=
        (h.entries _ _).mpr ⟨c, by rw [hcontent, Holding.bytes?, if_pos rfl]⟩
      refine ⟨_, lasting_update (by simp [hcontent]), h.change hwritten
        ⟨hplace, ⟨_, hside⟩, hsound, hdescribes⟩ (fun key hkey hfree => ?_) fun key => ?_⟩
      · have hkey' : key = k.metadataKey := by
          by_contra hne
          rw [hcontent] at hfree
          rw [Holding.bytes?_kept hside, if_neg hne] at hkey
          exact hkey hfree
        rw [hkey']
        exact not_not.mp htaken
      · rw [Fields.get?_insert, hcontent, Holding.bytes?_kept hside, Holding.bytes?]
        by_cases hkey : key = a.storageKey
        · simp [hkey, hapart, there]
        · by_cases hmeta : key = k.metadataKey
          · simp [hmeta, hapart]
          · simp [hkey, hmeta, Ne.symm hmeta]

theorem Sound.removeArtifact (h : σ.Sound holds) {key : String}
    {next : Except StorageError Unit → Activity Storage (Except StorageError Artifact)}
    (hc : σ.calls c = some (.ask (.store (.removeArtifact key)) next)) :
    ∃ holds', Lasting holds holds' ∧
      (σ.put c (next (σ.store.answer (.removeArtifact key)).1)
        (σ.store.answer (.removeArtifact key)).2).Sound holds' := by
  have asked := h.goesOn c
  rw [hc] at asked
  obtain ⟨⟨bytes, hcontent⟩, hremoved⟩ := asked
  refine ⟨_, lasting_update (by simp [hcontent]), h.change (hremoved _) trivial
    (fun k hk => absurd rfl hk) fun k => ?_⟩
  change Fields.get? k (Fields.erase key σ.store.entries) = _
  rw [Fields.get?_erase, hcontent, Holding.bytes?, Holding.bytes?, Option.none_or]
  by_cases hk : k = key
  · simp [hk]
  · simp [hk]

theorem Sound.answer (h : σ.Sound holds) {r : StoreRequest}
    {next : r.Reply → Activity Storage (Except StorageError Artifact)}
    (hc : σ.calls c = some (.ask (.store r) next)) :
    ∃ holds', Lasting holds holds' ∧
      (σ.put c (next (σ.store.answer r).1) (σ.store.answer r).2).Sound holds' := by
  have asked := h.goesOn c
  rw [hc] at asked
  cases r with
  | writeArtifact key bytes status => exact h.writeArtifact hc
  | writeMetadata a => exact h.writeMetadata hc
  | removeArtifact key => exact h.removeArtifact hc
  | readMetadata key => exact ⟨holds, lasting_refl holds, h.goOn (asked _)⟩
  | readArtifact key => exact asked.elim
  | contains key => exact asked.elim

theorem Sound.step (h : σ.Sound holds) {ev : Event C} (hev : ev.Plain)
    (hstep : σ.step? ev = some σ') : ∃ holds', Lasting holds holds' ∧ σ'.Sound holds' := by
  cases ev with
  | call c k =>
    rw [step?] at hstep
    split at hstep
    · rename_i hidle
      obtain rfl := Option.some_inj.mp hstep
      have nothing := h.goesOn c
      rw [hidle] at nothing
      refine ⟨holds, lasting_refl holds, h.goOn ?_⟩
      rw [show holds c = .nothing from nothing]
      exact k.activity_holds hev
    · cases hstep
  | proceed c now =>
    rw [step?] at hstep
    split at hstep
    · rename_i next hc
      obtain rfl := Option.some_inj.mp hstep
      have asked := h.goesOn c
      rw [hc] at asked
      exact ⟨holds, lasting_refl holds, h.goOn (asked now hev)⟩
    · rename_i r next hc
      obtain rfl := Option.some_inj.mp hstep
      exact h.answer hc
    · cases hstep

theorem Sound.run (h : σ.Sound holds) {evs : List (Event C)} (hevs : ∀ ev ∈ evs, ev.Plain)
    (hrun : σ.run? evs = some σ') : ∃ holds', Lasting holds holds' ∧ σ'.Sound holds' := by
  induction evs generalizing σ holds with
  | nil =>
    obtain rfl := Option.some_inj.mp hrun
    exact ⟨holds, lasting_refl holds, h⟩
  | cons ev rest ih =>
    obtain ⟨σ₁, hstep, hrest⟩ := Option.bind_eq_some_iff.mp hrun
    obtain ⟨holds₁, hlasting, h₁⟩ := h.step (hevs ev List.mem_cons_self) hstep
    obtain ⟨holds', hlasting', h'⟩ :=
      ih h₁ (fun e he => hevs e (List.mem_cons_of_mem _ he)) hrest
    exact ⟨holds', fun d a bytes hd => hlasting' d a bytes (hlasting d a bytes hd), h'⟩

end Preservation

section Integrity

variable {σ : Depot C} {holds : C → Holding}

theorem Sound.comes (h : σ.Sound holds) {c : C} {x : Except StorageError Artifact}
    (hc : σ.result? c = some x) : (holds c).Comes x := by
  have returned := h.goesOn c
  rw [result?] at hc
  split at hc
  · rename_i hdone
    rw [hdone] at returned
    obtain rfl := Option.some_inj.mp hc
    exact returned
  · cases hc

/-- When no call is under way, what is held is what a call returned. -/
theorem Sound.kept_of_quiet (h : σ.Sound holds) (hquiet : σ.Quiet) {c : C} {key : String}
    (hkey : (holds c).bytes? key ≠ none) :
    ∃ a content, holds c = .kept a content ∧ σ.result? c = some (.ok a) := by
  have nothing (hnone : holds c = .nothing) : False := by
    rw [hnone] at hkey
    exact hkey rfl
  rcases hquiet c with hidle | ⟨err | a, hc⟩
  · have idle := h.goesOn c
    rw [hidle] at idle
    exact (nothing idle).elim
  · exact (nothing (h.comes hc)).elim
  · obtain ⟨content, hkept⟩ := h.comes hc
    exact ⟨a, content, hkept, hc⟩

theorem Sound.kept_of_side (h : σ.Sound holds) {side : String} {bytes : ByteArray}
    (hside : ArtifactKey.IsSide side) (hbytes : Fields.get? side σ.store.entries = some bytes) :
    ∃ c a content, holds c = .kept a content ∧ ArtifactKey.side? a.storageKey = some side ∧
      bytes = a.encode.compact.toUTF8 := by
  obtain ⟨c, hc⟩ := (h.entries side bytes).mp hbytes
  have held := h.sound c
  rcases hholds : holds c with _ | ⟨key, content⟩ | ⟨a, content⟩
  · rw [hholds] at hc
    cases hc
  · rw [hholds] at hc held
    have hkey : side ≠ key := by
      rintro rfl
      exact held hside
    rw [Holding.bytes?, if_neg hkey] at hc
    cases hc
  · rw [hholds] at hc held
    obtain ⟨hplace, ⟨own, hown⟩, -⟩ := held
    have hkey : side ≠ a.storageKey := by
      rintro rfl
      exact hplace hside
    rw [Holding.bytes?_kept hown, if_neg hkey] at hc
    split at hc
    · rename_i hsame
      exact ⟨c, a, content, hholds, hsame ▸ hown, (Option.some_inj.mp hc).symm⟩
    · cases hc

theorem Sound.entries_of_kept (h : σ.Sound holds) {c : C} {a : Artifact} {content : ByteArray}
    {side : String} (hc : holds c = .kept a content)
    (hside : ArtifactKey.side? a.storageKey = some side) :
    Fields.get? a.storageKey σ.store.entries = some content ∧
      Fields.get? side σ.store.entries = some a.encode.compact.toUTF8 := by
  have apart : side ≠ a.storageKey := by
    have held := h.sound c
    rw [hc] at held
    rintro rfl
    exact held.1 ⟨_, hside⟩
  refine ⟨(h.entries _ _).mpr ⟨c, ?_⟩, (h.entries _ _).mpr ⟨c, ?_⟩⟩
  · rw [hc, Holding.bytes?_kept hside, if_pos rfl]
  · rw [hc, Holding.bytes?_kept hside, if_neg apart, if_pos rfl]

/-- Every sidecar describes content that is there; calls that returned an artifact have it in the
store, each under keys of its own; and when no call is under way, all entries are theirs. -/
structure Intact (σ : Depot C) : Prop where
  described : ∀ side bytes, ArtifactKey.IsSide side →
    Fields.get? side σ.store.entries = some bytes →
    ∃ a content, Artifact.ofBytes bytes = .ok a ∧ ArtifactKey.side? a.storageKey = some side ∧
      Fields.get? a.storageKey σ.store.entries = some content ∧ a.Describes content
  returned : ∀ c a, σ.result? c = some (.ok a) →
    σ.store.readMetadata a.storageKey = .ok a ∧
      ∃ content, Fields.get? a.storageKey σ.store.entries = some content ∧ a.Describes content
  apart : ∀ c c' a a', c ≠ c' → σ.result? c = some (.ok a) → σ.result? c' = some (.ok a') →
    a.storageKey ≠ a'.storageKey ∧
      ArtifactKey.side? a.storageKey ≠ ArtifactKey.side? a'.storageKey
  contents : σ.Quiet → ∀ key, σ.store.Taken key → ¬ ArtifactKey.IsSide key →
    ∃! c, ∃ a, σ.result? c = some (.ok a) ∧ a.storageKey = key
  sides : σ.Quiet → ∀ side, σ.store.Taken side → ArtifactKey.IsSide side →
    ∃! c, ∃ a, σ.result? c = some (.ok a) ∧ ArtifactKey.side? a.storageKey = some side

/-- The sidecars of the first store and the content that they tell of are in the second one. -/
def Lasts (m m' : MemoryStore) : Prop :=
  ∀ side bytes a, ArtifactKey.IsSide side → Fields.get? side m.entries = some bytes →
    Artifact.ofBytes bytes = .ok a →
    Fields.get? side m'.entries = some bytes ∧
      Fields.get? a.storageKey m'.entries = Fields.get? a.storageKey m.entries

theorem Sound.apart_of_kept (h : σ.Sound holds) {c c' : C} {a a' : Artifact}
    {content content' : ByteArray} (hcc' : c ≠ c') (hc : holds c = .kept a content)
    (hc' : holds c' = .kept a' content') :
    a.storageKey ≠ a'.storageKey ∧
      ArtifactKey.side? a.storageKey ≠ ArtifactKey.side? a'.storageKey := by
  have held := h.sound c
  have held' := h.sound c'
  rw [hc] at held
  rw [hc'] at held'
  obtain ⟨hplace, ⟨side, hside⟩, -⟩ := held
  obtain ⟨hplace', ⟨side', hside'⟩, -⟩ := held'
  have filled (key : String) (hkey : key = a.storageKey ∨ key = side) :
      (holds c).bytes? key ≠ none := by
    rw [hc, Holding.bytes?_kept hside]
    rcases hkey with rfl | rfl
    · simp
    · split <;> simp
  have filled' (key : String) (hkey : key = a'.storageKey ∨ key = side') :
      (holds c').bytes? key ≠ none := by
    rw [hc', Holding.bytes?_kept hside']
    rcases hkey with rfl | rfl
    · simp
    · split <;> simp
  constructor
  · intro hsame
    exact hcc' (h.apart c c' _ (filled _ (.inl rfl)) (filled' _ (.inl hsame)))
  · intro hsame
    rw [hside, hside', Option.some_inj] at hsame
    exact hcc' (h.apart c c' _ (filled _ (.inr rfl)) (filled' _ (.inr hsame)))

theorem Sound.intact (h : σ.Sound holds) : σ.Intact := by
  have apart (c c' : C) (a a' : Artifact) (hcc' : c ≠ c') (hc : σ.result? c = some (.ok a))
      (hc' : σ.result? c' = some (.ok a')) : a.storageKey ≠ a'.storageKey ∧
        ArtifactKey.side? a.storageKey ≠ ArtifactKey.side? a'.storageKey := by
    obtain ⟨content, hkept⟩ := h.comes hc
    obtain ⟨content', hkept'⟩ := h.comes hc'
    exact h.apart_of_kept hcc' hkept hkept'
  refine ⟨fun side bytes hside hbytes => ?_, fun c a hc => ?_, apart, fun hquiet key htaken hcontent =>
    ?_, fun hquiet side htaken hside => ?_⟩
  · obtain ⟨c, a, content, hkept, hown, rfl⟩ := h.kept_of_side hside hbytes
    have held := h.sound c
    rw [hkept] at held
    obtain ⟨-, -, hsound, hdescribes⟩ := held
    exact ⟨a, content, (Artifact.ofBytes_encode hsound).1, hown,
      (h.entries_of_kept hkept hown).1, hdescribes⟩
  · obtain ⟨content, hkept⟩ := h.comes hc
    have held := h.sound c
    rw [hkept] at held
    obtain ⟨-, ⟨side, hside⟩, hsound, hdescribes⟩ := held
    obtain ⟨hcontent, hmeta⟩ := h.entries_of_kept hkept hside
    obtain ⟨k, hread, rfl⟩ := Option.map_eq_some_iff.mp hside
    have read := MemoryStore.readMetadata_of_entry hread hmeta
    rw [(Artifact.ofBytes_encode hsound).1] at read
    exact ⟨read, content, hcontent, hdescribes⟩
  · obtain ⟨bytes, hbytes⟩ := Option.ne_none_iff_exists'.mp htaken
    obtain ⟨c, hc⟩ := (h.entries key bytes).mp hbytes
    obtain ⟨a, content, hkept, hresult⟩ := h.kept_of_quiet hquiet (by rw [hc]; nofun)
    have held := h.sound c
    rw [hkept] at held hc
    obtain ⟨-, ⟨side, hside⟩, -⟩ := held
    have hkey : key = a.storageKey := by
      rw [Holding.bytes?_kept hside] at hc
      split at hc
      · assumption
      · split at hc
        · rename_i hsame
          exact absurd ⟨_, hsame ▸ hside⟩ hcontent
        · cases hc
    refine ⟨c, ⟨a, hresult, hkey.symm⟩, ?_⟩
    rintro c' ⟨a', hresult', hkey'⟩
    by_contra hne
    exact (apart c' c a' a hne hresult' hresult).1 (hkey'.trans hkey)
  · obtain ⟨bytes, hbytes⟩ := Option.ne_none_iff_exists'.mp htaken
    obtain ⟨c, a, content, hkept, hown, rfl⟩ := h.kept_of_side hside hbytes
    have hc : (holds c).bytes? a.storageKey ≠ none := by
      rw [hkept, Holding.bytes?_kept hown, if_pos rfl]
      nofun
    obtain ⟨a₁, content₁, hkept₁, hresult⟩ := h.kept_of_quiet hquiet hc
    rw [hkept] at hkept₁
    cases hkept₁
    refine ⟨c, ⟨a, hresult, hown⟩, ?_⟩
    rintro c' ⟨a', hresult', hown'⟩
    by_contra hne
    exact (apart c' c a' a hne hresult' hresult).2 (hown'.trans hown.symm)

theorem Sound.lasts (h : σ.Sound holds) {σ' : Depot C} {holds' : C → Holding}
    (h' : σ'.Sound holds') (hlasting : Lasting holds holds') : Lasts σ.store σ'.store := by
  intro side bytes a hside hbytes ha
  obtain ⟨c, a₁, content, hkept, hown, rfl⟩ := h.kept_of_side hside hbytes
  have held := h.sound c
  rw [hkept] at held
  rw [(Artifact.ofBytes_encode held.2.2.1).1] at ha
  cases ha
  obtain ⟨hcontent, -⟩ := h.entries_of_kept hkept hown
  obtain ⟨hcontent', hmeta'⟩ := h'.entries_of_kept (hlasting c a content hkept) hown
  exact ⟨hmeta', hcontent'.trans hcontent.symm⟩

/-- Whatever calls keep artifacts in a store that was empty, and in whatever order their requests
are answered, the store is intact at all times, and its sidecars last with their content. -/
theorem concurrent_calls_intact [DecidableEq C] {evs : List (Event C)}
    (hevs : ∀ ev ∈ evs, ev.Plain) (hrun : empty.run? evs = some σ) :
    σ.Intact ∧ ∀ later σ', (∀ ev ∈ later, ev.Plain) → σ.run? later = some σ' →
      Lasts σ.store σ'.store := by
  obtain ⟨holds, -, h⟩ := sound_empty.run hevs hrun
  refine ⟨h.intact, fun later σ' hlater hrun' => ?_⟩
  obtain ⟨holds', hlasting, h'⟩ := h.run hlater hrun'
  exact h.lasts h' hlasting

end Integrity

/-- Two calls keep the same article at once, one of them as published: both write their content,
under different keys, but only one of them gets the sidecar. -/
def race : List (Event Bool) :=
  let now : Timestamp := ⟨0, 0⟩
  [.call false (.persist ArtifactStore.article),
    .call true (.persist { ArtifactStore.article with contentStatus := .published }),
    .proceed false now, .proceed true now, .proceed false now, .proceed true now,
    .proceed true now, .proceed false now, .proceed false now]

theorem race_intact : (∀ ev ∈ race, ev.Plain) ∧
    ∃ σ, empty.run? race = some σ ∧ σ.Quiet ∧ σ.Intact := by
  have hplain : ∀ ev ∈ race, ev.Plain := by
    intro ev hev
    simp only [race, List.mem_cons, List.not_mem_nil, or_false] at hev
    have hnow : (⟨0, 0⟩ : Timestamp).Shown := by decide
    rcases hev with rfl | rfl | rfl | rfl | rfl | rfl | rfl | rfl | rfl
    · exact (by decide : ArtifactStore.article.content.toUTF8.size < 0x1_0000_0000_0000_0000)
    · exact (by decide : ArtifactStore.article.content.toUTF8.size < 0x1_0000_0000_0000_0000)
    all_goals exact hnow
  have ended : (empty.run? race).any (fun σ => (σ.result? false).isSome && (σ.result? true).isSome) =
      true := by
    decide +kernel
  obtain ⟨σ, hrun, hended⟩ := Option.any_eq_true .. |>.mp ended
  rw [Bool.and_eq_true] at hended
  refine ⟨hplain, σ, hrun, fun c => .inr ?_, (concurrent_calls_intact hplain hrun).1⟩
  cases c
  · exact Option.isSome_iff_exists.mp hended.1
  · exact Option.isSome_iff_exists.mp hended.2

end Depot

end PlaybookEngine
