import PlaybookEngine.Playbook.Discovery

namespace PlaybookEngine

structure Rejection where
  /-- The path of the file, or the code of a playbook that came from no file. -/
  source : String
  reason : PlaybookError

structure Registry where
  playbooks : Fields (List Playbook)
  rejected : List Rejection
  fallbackLocale : String

namespace Registry

def defaultFallback : String := "en"

def empty (fallback : String) : Registry := ⟨[], [], fallback⟩

/-- All variants of a code. -/
def variants (r : Registry) (code : String) : List Playbook :=
  (Fields.get? code r.playbooks).getD []

def findLocale (locale : String) (ps : List Playbook) : Option Playbook :=
  ps.find? (·.locale == locale)

/-- Why a playbook cannot stand beside earlier variants. -/
def conflict? (earlier : List Playbook) (p : Playbook) : Option PlaybookError :=
  if (findLocale p.locale earlier).isSome then some (.duplicateCode p.code p.locale)
  else
    match earlier with
    | [] => none
    | first :: _ =>
      if first.defaultLocale = p.defaultLocale then none
      else some (.invalidLocale ("variant '" ++ p.locale ++ "' of '" ++ p.code
        ++ "' declares default locale '" ++ p.defaultLocale ++ "' but other variants declare '"
        ++ first.defaultLocale ++ "'"))

def reject (r : Registry) (source : String) (e : PlaybookError) : Registry :=
  { r with rejected := r.rejected ++ [⟨source, e⟩] }

def insert (r : Registry) (source : String) (p : Playbook) : Registry :=
  match conflict? (r.variants p.code) p with
  | some e => r.reject source e
  | none => { r with playbooks := Fields.insert p.code (r.variants p.code ++ [p]) r.playbooks }

/-- Takes in what a source gave: a playbook, or the reason why there is none. -/
def add (r : Registry) (source : String) : Except PlaybookError Playbook → Registry
  | .ok p => r.insert source p
  | .error e => r.reject source e

def validated (p : Playbook) : Except PlaybookError Playbook := p.validate.map fun _ => p

def ofPlaybooks (fallback : String) (ps : List Playbook) : Registry :=
  ps.foldl (fun r p => r.add p.code (validated p)) (empty fallback)

def ofFiles (fallback : String) (files : List DiscoveredFile) : Registry :=
  files.foldl (fun r f => r.add f.path f.playbook) (empty fallback)

/-- The registry of the files below a directory, none of them when it is no directory. -/
def ofDirectory (shown fallback : String) :
    Option (List (Path × ByteArray)) → Except PlaybookError Registry
  | none => .error (.unreadable shown "playbook directory not found")
  | some files =>
    .ok (ofFiles fallback (files.filterMap fun f =>
      Discovery.file? (Discovery.below shown (Path.text f.1)) f.2))

/-- The registry of a directory below `root`. -/
def load (root : String) (t : FileTree) (dir : Option String) (fallback : String) :
    Except PlaybookError Registry :=
  ofDirectory (dir.elim root (Discovery.below root)) fallback
    ((t.resolve (dir.getD "")).bind t.filesOf?)

/-- Like `load`, but the first rejection is an error. -/
def loadStrict (root : String) (t : FileTree) (dir : Option String) :
    Except PlaybookError Registry := do
  let r ← load root t dir defaultFallback
  match r.rejected with
  | [] => .ok r
  | first :: _ => .error first.reason

/-- The variant of the first locale that is there: the requested one, the default of the playbook,
the fallback of the registry; else the first variant. -/
def resolve (r : Registry) (code locale : String) : Except PlaybookError Playbook :=
  match r.variants code with
  | [] => .error (.notFound code)
  | first :: rest =>
    let find := fun wanted => findLocale wanted (first :: rest)
    .ok ((find locale).getD ((find first.defaultLocale).getD
      ((find r.fallbackLocale).getD first)))

/-- The playbook that reports on the jobs of another one. -/
def statusCompanion? (r : Registry) (code locale : String) : Option Playbook :=
  (r.resolve (code ++ "_status") locale).toOption

def codes (r : Registry) : List String := Fields.keys r.playbooks

/-- One playbook per code, in its default locale. -/
def list (r : Registry) : List Playbook :=
  r.codes.filterMap fun code =>
    (r.variants code).head?.bind fun first => (r.resolve code first.defaultLocale).toOption

end Registry

end PlaybookEngine
