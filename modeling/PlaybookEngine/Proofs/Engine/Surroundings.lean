import PlaybookEngine.Engine.World
import PlaybookEngine.Proofs.Activity.Run

namespace PlaybookEngine

theorem Instant.le_after (now : Instant) (d : Span) : now ≤ (Instant.after now d).getD now := by
  unfold Instant.after
  split
  · exact Nat.le_refl now
  · exact Nat.le_add_right now d

theorem ToolServer.le_arrival {T : Type} [ToolServer T] (now : Instant) (r : ToolRequest) (t : T) :
    now ≤ (surroundings now r t).arrival.getD now := by
  cases r with
  | now => exact Nat.le_refl now
  | sleep d => exact Instant.le_after now d
  | call tool params limit => exact Instant.le_after now _
  | poll tool job => exact Instant.le_after now _

/-- The ids that are handed out next. -/
def IdSource.upcoming {S : Type} [IdSource S] (s : S) : Nat → List String
  | 0 => []
  | n + 1 => (fresh s).1 :: upcoming (fresh s).2 n

theorem IdSource.upcoming_sublist {S : Type} [IdSource S] (s : S) {m n : Nat} (h : m ≤ n) :
    (upcoming s m).Sublist (upcoming s n) := by
  induction m generalizing n s with
  | zero => exact List.nil_sublist _
  | succ m ih =>
    cases n with
    | zero => cases h
    | succ n => exact (ih (fresh s).2 (Nat.le_of_succ_le_succ h)).cons_cons _

namespace World

variable {T S α : Type} [ToolServer T] [IdSource S]

theorem run_tooling (p : Activity Tooling α) (now : Instant) (w : World T S) :
    (Working.tooling p).run surroundings now w =
      let x := p.run ToolServer.surroundings now w.tools
      (x.1, x.2.1, { w with tools := x.2.2 }) := by
  unfold Working.tooling
  induction p generalizing now w with
  | done a => rfl
  | ask r next ih => exact ih _ _ _

omit [ToolServer T] [IdSource S] in
theorem storePause_getD (w : World T S) (now : Instant) : (w.storePause now).getD now = now := by
  unfold storePause
  split <;> rfl

/-- Keeping artifacts takes no time. -/
theorem run_storage (p : Activity Storage α) (now : Instant) (w : World T S) :
    (Working.storage p).run surroundings now w =
      let x := ArtifactStore.run (.ofNanos now) p w.store
      (x.1, now, { w with store := x.2 }) := by
  unfold Working.storage
  induction p generalizing w with
  | done a => rfl
  | ask r next ih =>
    cases r with
    | now => exact ih _ w
    | store r =>
      have step := ih (w.store.answer r).1 { w with store := (w.store.answer r).2 }
      change Activity.run surroundings _ ((w.storePause now).getD now) _ = _
      rw [storePause_getD]
      exact step

theorem le_arrival (now : Instant) (r : Working.Request) (w : World T S) :
    now ≤ (surroundings now r w).arrival.getD now := by
  cases r with
  | freshId => exact Nat.le_refl now
  | tool r => exact ToolServer.le_arrival now r w.tools
  | store r =>
    change now ≤ (w.storePause now).getD now
    exact Nat.le_of_eq (w.storePause_getD now).symm
  | job r => cases r <;> exact Nat.le_refl now

theorem run_now (now : Instant) (w : World T S) :
    Working.now.run surroundings now w = (Timestamp.ofNanos now, now, w) := rfl

theorem run_freshId (now : Instant) (w : World T S) :
    Working.freshId.run surroundings now w =
      ((IdSource.fresh w.ids).1, now, { w with ids := (IdSource.fresh w.ids).2 }) := rfl

theorem run_suspend (s : Suspended) (now : Instant) (w : World T S) :
    (Working.suspend s).run surroundings now w =
      ((w.jobs.suspend now s).1, now, { w with jobs := (w.jobs.suspend now s).2 }) := rfl

end World

end PlaybookEngine
