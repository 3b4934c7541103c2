import PlaybookEngine.Proofs.Activity.Assurance
import PlaybookEngine.Proofs.Artifact.Entries

namespace PlaybookEngine

/-- The digest and the size that the artifact tells are those of the bytes. -/
def Artifact.Describes (a : Artifact) (bytes : ByteArray) : Prop :=
  a.sha256 = Digest.sha256 bytes ∧ a.sizeBytes = bytes.size

/-- What a call has put into the store. -/
inductive Holding
  | nothing
  /-- Content, so far without metadata. -/
  | content (key : String) (bytes : ByteArray)
  /-- An artifact and its content. -/
  | kept (a : Artifact) (bytes : ByteArray)

namespace Holding

def bytes? : Holding → String → Option ByteArray
  | .nothing, _ => none
  | .content key bytes, k => if k = key then some bytes else none
  | .kept a bytes, k =>
    if k = a.storageKey then some bytes
    else if ArtifactKey.side? a.storageKey = some k then some a.encode.compact.toUTF8
    else none

/-- Content lies where no metadata could lie, and an artifact can be read back and describes its
content. -/
def Sound : Holding → Prop
  | .nothing => True
  | .content key _ => ¬ ArtifactKey.IsSide key
  | .kept a bytes => ¬ ArtifactKey.IsSide a.storageKey ∧
    (∃ side, ArtifactKey.side? a.storageKey = some side) ∧ a.Sound ∧ a.Describes bytes

/-- What is held of a kept artifact lies under two keys. -/
theorem bytes?_kept {a : Artifact} {bytes : ByteArray} {side : String}
    (hside : ArtifactKey.side? a.storageKey = some side) (key : String) :
    (kept a bytes).bytes? key =
      if key = a.storageKey then some bytes
      else if key = side then some a.encode.compact.toUTF8 else none := by
  simp [bytes?, hside, eq_comm]

/-- A result that is told with this held: an artifact that is kept, or an error and nothing. -/
def Comes (h : Holding) : Except StorageError Artifact → Prop
  | .ok a => ∃ bytes, h = .kept a bytes
  | .error _ => h = .nothing

end Holding

/-- Replies to those who hold something of their own, at times that a clock can show. -/
def Storage.holding : Storage.Spec Holding
  | h, .now, K => ∀ now : Timestamp, now.Shown → K now h
  | h, .store (.readMetadata _), K => ∀ x, K x h
  | h, .store (.writeArtifact key bytes status), K =>
    h = .nothing ∧ (∀ err : StorageError, K (Except.error err) .nothing) ∧
      K (Except.ok (key.contentKey status)) (.content (key.contentKey status) bytes)
  | h, .store (.writeMetadata a), K =>
    ∃ bytes, h = .content a.storageKey bytes ∧ a.Sound ∧ a.Describes bytes ∧
      (∀ err : StorageError, K (Except.error err) h) ∧ K (Except.ok ()) (.kept a bytes)
  | h, .store (.removeArtifact key), K => (∃ bytes, h = .content key bytes) ∧ ∀ x, K x .nothing
  | _, .store (.readArtifact _), _ => False
  | _, .store (.contains _), _ => False

theorem Storage.holding_mono : holding.Mono := by
  intro h r K K' hK hr
  cases r with
  | now =>
    intro now hnow
    apply hK
    exact hr now hnow
  | store r =>
    cases r with
    | readMetadata key =>
      intro x
      apply hK
      exact hr x
    | writeArtifact key bytes status =>
      obtain ⟨hnothing, hrefused, hwritten⟩ := hr
      exact ⟨hnothing, fun err => hK _ _ (hrefused err), hK _ _ hwritten⟩
    | writeMetadata a =>
      obtain ⟨bytes, hcontent, hsound, hdescribes, hrefused, hwritten⟩ := hr
      exact ⟨bytes, hcontent, hsound, hdescribes, fun err => hK _ _ (hrefused err),
        hK _ _ hwritten⟩
    | removeArtifact key => exact ⟨hr.1, fun x => hK _ _ (hr.2 x)⟩
    | readArtifact key => exact hr
    | contains key => exact hr

namespace Artifact

open Activity

/-- A version that is stored is kept; when it is refused, nothing is held. -/
theorem store_holds {v : Version} (hversion : v.version < 0x1_0000_0000)
    (hsize : v.content.size < 0x1_0000_0000_0000_0000) :
    (store v).Assures Storage.holding .nothing fun x h => h.Comes x := by
  rw [store, assures_bind]
  refine ⟨rfl, fun err => rfl, ?_⟩
  intro now hnow
  have hsound : (v.artifact (v.key.contentKey v.status) now).Sound := ⟨hversion, hsize, hnow⟩
  refine ⟨v.content, rfl, hsound, ⟨rfl, rfl⟩, fun err => ?_, ⟨v.content, rfl⟩⟩
  exact ⟨⟨v.content, rfl⟩, fun _ => rfl⟩

theorem persist_holds (d : ArtifactDraft)
    (hsize : d.content.toUTF8.size < 0x1_0000_0000_0000_0000) :
    (persist d).Assures Storage.holding .nothing fun x h => h.Comes x :=
  store_holds (by decide : 1 < 0x1_0000_0000) hsize

theorem freeVersion_holds (parent : Artifact) (left : Nat) {version : Nat}
    (hversion : version < 0x1_0000_0000) (h : Holding) :
    (freeVersion parent left version).Assures Storage.holding h fun x h' =>
      h' = h ∧ ∀ w, x = .ok w → w < 0x1_0000_0000 := by
  induction left generalizing version with
  | zero =>
    rw [freeVersion, assures_bind]
    intro x
    rcases x with err | a
    · cases err
      case notFound =>
        refine ⟨rfl, fun w hw => ?_⟩
        cases hw
        exact hversion
      all_goals exact ⟨rfl, nofun⟩
    · exact ⟨rfl, nofun⟩
  | succ left ih =>
    rw [freeVersion, assures_bind]
    intro x
    rcases x with err | a
    · cases err
      case notFound =>
        refine ⟨rfl, fun w hw => ?_⟩
        cases hw
        exact hversion
      all_goals exact ⟨rfl, nofun⟩
    · exact ih (nextVersion_lt version)

theorem refine_holds (parentKey : String) {content : String} (status : ContentStatus)
    (hsize : content.toUTF8.size < 0x1_0000_0000_0000_0000) :
    (refine parentKey content status).Assures Storage.holding .nothing fun x h => h.Comes x := by
  rw [refine, assures_bind]
  intro x
  rcases x with err | parent
  · exact rfl
  · let next := nextVersion parent.version
    change (freeVersion parent (versionsAfter next) next >>= _).Assures _ _ _
    rw [assures_bind]
    refine (freeVersion_holds parent (versionsAfter next) (nextVersion_lt _) .nothing).mono
      Storage.holding_mono ?_
    rintro y h ⟨rfl, hword⟩
    rcases y with err | w
    · exact rfl
    · exact store_holds (v := .ofParent parent w content status) (hword w rfl) hsize

end Artifact

/-- A call that keeps an artifact. -/
inductive Keeping
  | persist (d : ArtifactDraft)
  | refine (parentKey content : String) (status : ContentStatus)

namespace Keeping

def activity : Keeping → Activity Storage (Except StorageError Artifact)
  | .persist d => Artifact.persist d
  | .refine parentKey content status => Artifact.refine parentKey content status

def content : Keeping → ByteArray
  | .persist d => d.content.toUTF8
  | .refine _ content _ => content.toUTF8

theorem activity_holds (k : Keeping) (hsize : k.content.size < 0x1_0000_0000_0000_0000) :
    k.activity.Assures Storage.holding .nothing fun x h => h.Comes x := by
  cases k with
  | persist d => exact Artifact.persist_holds d hsize
  | refine parentKey content status => exact Artifact.refine_holds parentKey status hsize

end Keeping

end PlaybookEngine
