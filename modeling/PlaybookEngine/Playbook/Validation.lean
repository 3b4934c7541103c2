import PlaybookEngine.Playbook.Basic
import PlaybookEngine.Playbook.Error
import PlaybookEngine.Playbook.Version

namespace PlaybookEngine.Playbook

/-- The first fault of the steps after the ones named in `seen`. -/
def stepFault? (p : Playbook) (seen : List String) : List Step → Option PlaybookError
  | [] => none
  | s :: rest =>
    if seen.contains s.id then some (.duplicateStep s.id)
    else if p.declaresTool s.tool then stepFault? p (s.id :: seen) rest
    else some (.undeclaredTool s.id s.tool.text)

def localeFault? (p : Playbook) : Option PlaybookError :=
  if p.supportedLocales.contains p.defaultLocale then none
  else some (.invalidLocale ("default_locale '" ++ p.defaultLocale
    ++ "' is not in supported_locales " ++ Text.quotedList p.supportedLocales))

def versionFault? (p : Playbook) : Option PlaybookError :=
  (Version.fault? p.version).map fun f => .invalidVersion p.version f.message

/-- A code and a name, a semantic version, a supported default locale, steps of different names
that call declared tools. -/
def fault? (p : Playbook) : Option PlaybookError :=
  if Text.isBlankText p.code then some (.missingField "playbook_code")
  else if Text.isBlankText p.name then some (.missingField "name")
  else (p.versionFault?.or p.localeFault?).or (p.stepFault? [] p.steps)

def validate (p : Playbook) : Except PlaybookError Unit :=
  match p.fault? with
  | none => .ok ()
  | some e => .error e

theorem stepFault?_eq_none {p : Playbook} {seen : List String} {steps : List Step} :
    p.stepFault? seen steps = none ↔
      (steps.map (·.id)).Nodup ∧ (∀ s ∈ steps, s.id ∉ seen) ∧
        ∀ s ∈ steps, p.declaresTool s.tool = true := by
  induction steps generalizing seen with
  | nil => simp [stepFault?]
  | cons s rest ih =>
    unfold stepFault?
    by_cases hs : s.id ∈ seen
    · simp [hs]
    · by_cases ht : p.declaresTool s.tool = true
      · simp only [List.contains_eq_mem, hs, decide_false, Bool.false_eq_true, ↓reduceIte, ht, ih]
        simp only [List.map_cons, List.nodup_cons, List.mem_cons, not_or, forall_eq_or_imp,
          hs, not_false_eq_true, true_and, ht, List.mem_map, not_exists, not_and]
        grind
      · simp [hs, ht]

theorem validate_eq_ok {p : Playbook} : p.validate = .ok () ↔ p.fault? = none := by
  unfold validate
  split <;> simp_all

end PlaybookEngine.Playbook
