import PlaybookEngine.Playbook.Registry

namespace PlaybookEngine

namespace Playbook

theorem stepFault?_of_fault? {p : Playbook} (h : p.fault? = none) :
    p.stepFault? [] p.steps = none := by
  unfold fault? at h
  split at h
  · cases h
  · split at h
    · cases h
    · exact (Option.or_eq_none_iff.mp h).2

theorem nodup_steps {p : Playbook} (h : p.fault? = none) : (p.steps.map (·.id)).Nodup :=
  (stepFault?_eq_none.mp (stepFault?_of_fault? h)).1

theorem declaresTool_of_fault? {p : Playbook} (h : p.fault? = none) :
    ∀ s ∈ p.steps, p.declaresTool s.tool = true :=
  (stepFault?_eq_none.mp (stepFault?_of_fault? h)).2.2

/-- The front matter in these characters. -/
def frontMatter? (front : List Char) : Option Yaml.Node := do
  (Yaml.Node.ofTokens? (← Yaml.tokens front)).filter (·.depth ≤ 128)

theorem read_ofList (front : List Char) : Yaml.read (String.ofList front) = frontMatter? front := by
  rw [Yaml.read, String.toList_ofList, frontMatter?]
  refine bind_congr fun ts => ?_
  cases Yaml.Node.ofTokens? ts with
  | none => rfl
  | some n =>
    rw [Option.filter_some]
    simp only [Option.bind_eq_bind, Option.bind_some, decide_eq_true_eq]

/-- The playbook that a document declares in these characters, if it keeps the rules. -/
def declared? (text : List Char) : Option Playbook := do
  let (front, body) ← (Document.split text).toOption
  ((frontMatter? front).bind (FrontMatter.playbook (Document.sections body))).filter
    (·.fault?.isNone)

theorem ofDocument_eq_ok_iff {text : String} {p : Playbook} :
    ofDocument text = .ok p ↔ declared? text.toList = some p := by
  unfold ofDocument declared?
  cases Document.split text.toList with
  | error fault => simp [Except.toOption, Bind.bind, Except.bind]
  | ok parts =>
    obtain ⟨front, body⟩ := parts
    simp only [read_ofList, Except.toOption, Option.bind_some, Bind.bind, Except.bind]
    cases (frontMatter? front).bind (FrontMatter.playbook (Document.sections body)) with
    | none => simp
    | some q =>
      rw [Option.filter_some]
      cases hvalid : q.validate with
      | ok u => simp [hvalid, validate_eq_ok.mp hvalid]
      | error e =>
        have hfault : q.fault? ≠ none := fun h => by
          rw [validate_eq_ok.mpr h] at hvalid
          cases hvalid
        simp [hvalid, hfault]

/-- The playbook of a document is that of its front matter, and it keeps the rules. -/
theorem frontMatter_of_ofDocument {text : String} {p : Playbook} (h : ofDocument text = .ok p) :
    (∃ sections n, FrontMatter.playbook sections n = some p) ∧ p.fault? = none := by
  obtain ⟨⟨front, body⟩, -, h⟩ := Option.bind_eq_some_iff.mp (ofDocument_eq_ok_iff.mp h)
  obtain ⟨hread, hfault⟩ := Option.filter_eq_some_iff.mp h
  obtain ⟨n, -, hread⟩ := Option.bind_eq_some_iff.mp hread
  exact ⟨⟨_, n, hread⟩, Option.isNone_iff_eq_none.mp hfault⟩

theorem fault?_of_ofDocument {text : String} {p : Playbook} (h : ofDocument text = .ok p) :
    p.fault? = none := (frontMatter_of_ofDocument h).2

theorem fault?_of_ofFile {path : String} {content : ByteArray} {p : Playbook}
    (h : ofFile path content = .ok p) : p.fault? = none := by
  unfold ofFile at h
  split at h
  · cases h
  · split at h
    · cases h
    · exact fault?_of_ofDocument h

end Playbook

namespace Registry

/-- Playbooks come in by themselves, or in files. -/
inductive Loaded : Registry → Prop
  | playbooks (fallback : String) (ps : List Playbook) : Loaded (ofPlaybooks fallback ps)
  | files (fallback : String) (files : List DiscoveredFile)
    (contents : ∀ f ∈ files, ∃ content, f.playbook = Playbook.ofFile f.path content) :
    Loaded (ofFiles fallback files)

theorem loaded_of_ofDirectory {shown fallback : String}
    {files : Option (List (Path × ByteArray))} {r : Registry}
    (h : ofDirectory shown fallback files = .ok r) : r.Loaded := by
  cases files with
  | none => cases h
  | some files =>
    cases h
    refine .files fallback _ fun f hf => ?_
    obtain ⟨source, -, hfile⟩ := List.mem_filterMap.mp hf
    unfold Discovery.file? at hfile
    split at hfile
    · split at hfile
      · cases hfile
        exact ⟨source.2, rfl⟩
      · cases hfile
    · cases hfile

theorem loaded_of_load {root fallback : String} {t : FileTree} {dir : Option String}
    {r : Registry} (h : load root t dir fallback = .ok r) : r.Loaded :=
  loaded_of_ofDirectory h

/-- The playbook is a variant of some code. -/
def Holds (r : Registry) (p : Playbook) : Prop := ∃ code, p ∈ r.variants code

theorem not_holds_empty (fallback : String) (p : Playbook) : ¬ (empty fallback).Holds p := by
  rintro ⟨code, hp⟩
  cases hp

theorem holds_insert {r : Registry} {source : String} {p q : Playbook}
    (h : (r.insert source q).Holds p) : r.Holds p ∨ p = q := by
  obtain ⟨code, hp⟩ := h
  unfold insert at hp
  split at hp
  · exact .inl ⟨code, hp⟩
  · rw [variants, Fields.get?_insert] at hp
    split at hp
    · rw [Option.getD_some, List.mem_append, List.mem_singleton] at hp
      rcases hp with hp | rfl
      · exact .inl ⟨q.code, hp⟩
      · exact .inr rfl
    · exact .inl ⟨code, hp⟩

theorem holds_add {r : Registry} {source : String} {p : Playbook}
    {x : Except PlaybookError Playbook} (h : (r.add source x).Holds p) : r.Holds p ∨ x = .ok p := by
  cases x with
  | error e => exact .inl h
  | ok q =>
    rcases holds_insert h with h | rfl
    · exact .inl h
    · exact .inr rfl

/-- Whatever is taken in one after the other, what is held came in. -/
theorem holds_foldl_add {α : Type} {sources : List α} {source : α → String}
    {content : α → Except PlaybookError Playbook} {r : Registry} {p : Playbook}
    (h : (sources.foldl (fun r x => r.add (source x) (content x)) r).Holds p) :
    r.Holds p ∨ ∃ x ∈ sources, content x = .ok p := by
  induction sources generalizing r with
  | nil => exact .inl h
  | cons x rest ih =>
    rcases ih h with h | ⟨y, hy, hp⟩
    · rcases holds_add h with h | hp
      · exact .inl h
      · exact .inr ⟨x, List.mem_cons_self, hp⟩
    · exact .inr ⟨y, List.mem_cons_of_mem _ hy, hp⟩

variable {r : Registry} {p : Playbook}

/-- Only playbooks without a fault are held. -/
theorem Loaded.fault? (h : r.Loaded) (hp : r.Holds p) : p.fault? = none := by
  cases h with
  | playbooks fallback ps =>
    rcases holds_foldl_add hp with hp | ⟨q, -, hq⟩
    · exact absurd hp (not_holds_empty fallback p)
    · unfold validated at hq
      cases hvalid : q.validate with
      | error e =>
        rw [hvalid] at hq
        cases hq
      | ok u =>
        rw [hvalid] at hq
        cases hq
        exact Playbook.validate_eq_ok.mp hvalid
  | files fallback files contents =>
    rcases holds_foldl_add hp with hp | ⟨f, hf, hq⟩
    · exact absurd hp (not_holds_empty fallback p)
    · obtain ⟨content, hcontent⟩ := contents f hf
      exact Playbook.fault?_of_ofFile (hcontent.symm.trans hq)

theorem Loaded.nodup_steps (h : r.Loaded) (hp : r.Holds p) : (p.steps.map (·.id)).Nodup :=
  Playbook.nodup_steps (h.fault? hp)

theorem holds_of_resolve {code locale : String} (h : r.resolve code locale = .ok p) :
    r.Holds p := by
  refine ⟨code, ?_⟩
  unfold resolve at h
  split at h
  · cases h
  · rename_i first rest hvariants
    rw [hvariants]
    have found {wanted : String} {o : Playbook} (ho : o ∈ first :: rest) :
        (findLocale wanted (first :: rest)).getD o ∈ first :: rest := by
      cases hfind : findLocale wanted (first :: rest) with
      | none => exact ho
      | some q => exact List.mem_of_find?_eq_some hfind
    cases h
    exact found (found (found List.mem_cons_self))

end Registry

end PlaybookEngine
