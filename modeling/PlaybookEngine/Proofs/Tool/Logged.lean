import PlaybookEngine.Proofs.Tool.Immediate

namespace PlaybookEngine

structure Logged (T : Type) where
  tools : T
  calls : List (ToolRef × Json)

namespace Logged

open ToolServer

variable {T T' : Type} [ToolServer T] [ToolServer T']

instance : ToolServer (Logged T) where
  call t now tool params :=
    let (a, tools) := call t.tools now tool params
    (a, ⟨tools, t.calls ++ [(tool, params)]⟩)
  poll t now tool job :=
    let (a, tools) := poll t.tools now tool job
    (a, ⟨tools, t.calls⟩)

/-- The tools match, and the same calls were made of them. -/
structure Match (R : T → T' → Prop) (t : Logged T) (t' : Logged T') : Prop where
  tools : R t.tools t'.tools
  calls : t.calls = t'.calls

variable {R : T → T' → Prop}

omit [ToolServer T'] in
theorem ends {tool : ToolRef} {job : String} {x : Except ToolError ToolResponse} {t : T} {t' : T'}
    (h : Ends R tool job x t' t) {calls calls' : List (ToolRef × Json)} (hcalls : calls = calls') :
    Ends (Match R) tool job x ⟨t', calls'⟩ ⟨t, calls⟩ := by
  induction h with
  | poll ended goesOn ih =>
    refine .poll (fun now y hy => ?_) fun now hnone => ih now hnone
    obtain ⟨hx, hr⟩ := ended now y hy
    exact ⟨hx, hr, hcalls⟩

end Logged

end PlaybookEngine
