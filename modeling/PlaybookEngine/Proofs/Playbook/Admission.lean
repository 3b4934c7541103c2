import PlaybookEngine.Proofs.Fields.Ordered
import PlaybookEngine.Proofs.Playbook.Loaded
import Mathlib.Data.List.Induction
import Mathlib.Data.List.Pairwise

namespace PlaybookEngine.Registry

/-- A source, and the playbook in it or the reason why there is none. -/
structure Offer where
  source : String
  content : Except PlaybookError Playbook

namespace Offer

/-- A playbook that came from no file goes by its code. -/
def ofPlaybook (p : Playbook) : Offer := ⟨p.code, validated p⟩

def ofFile (f : DiscoveredFile) : Offer := ⟨f.path, f.playbook⟩

/-- The offer holds no playbook that breaks a rule. -/
def Checked (o : Offer) : Prop := ∀ p, o.content = .ok p → p.validate = .ok ()

theorem checked_ofPlaybook (p : Playbook) : (ofPlaybook p).Checked := by
  intro q hq
  change validated p = .ok q at hq
  unfold validated at hq
  cases hvalid : p.validate with
  | error e =>
    rw [hvalid] at hq
    cases hq
  | ok u =>
    rw [hvalid] at hq
    cases hq
    exact hvalid

/-- The files of a directory that hold playbooks, as they are offered. -/
def ofDirectory (shown : String) (files : List (Path × ByteArray)) : List Offer :=
  (files.filterMap fun f =>
    Discovery.file? (Discovery.below shown (Path.text f.1)) f.2).map ofFile

theorem checked_ofDirectory (shown : String) (files : List (Path × ByteArray)) :
    ∀ o ∈ ofDirectory shown files, o.Checked := by
  intro o ho p hp
  obtain ⟨f, hf, rfl⟩ := List.mem_map.mp ho
  obtain ⟨file, -, hfile⟩ := List.mem_filterMap.mp hf
  unfold Discovery.file? at hfile
  split at hfile
  · split at hfile
    · cases hfile
      exact Playbook.validate_eq_ok.mpr (Playbook.fault?_of_ofFile hp)
    · cases hfile
  · cases hfile

end Offer

/-- What becomes of an offer. -/
inductive Fate
  | variant (p : Playbook)
  | rejected (reason : PlaybookError)

/-- The reason to reject a playbook whose default locale is not that of an earlier variant. -/
def disagreement (p first : Playbook) : PlaybookError :=
  .invalidLocale ("variant '" ++ p.locale ++ "' of '" ++ p.code ++ "' declares default locale '"
    ++ p.defaultLocale ++ "' but other variants declare '" ++ first.defaultLocale ++ "'")

/-- The fate that an offer meets after the accepted playbooks. -/
inductive Meets (accepted : List Playbook) : Except PlaybookError Playbook → Fate → Prop
  | welcome {p : Playbook} (fresh : ∀ q ∈ accepted, q.code = p.code → q.locale ≠ p.locale)
      (agrees : ∀ q ∈ accepted, q.code = p.code → q.defaultLocale = p.defaultLocale) :
      Meets accepted (.ok p) (.variant p)
  | invalid {e : PlaybookError} : Meets accepted (.error e) (.rejected e)
  | repeated {p q : Playbook} (earlier : q ∈ accepted) (code : q.code = p.code)
      (locale : q.locale = p.locale) :
      Meets accepted (.ok p) (.rejected (.duplicateCode p.code p.locale))
  | disagrees {p first : Playbook}
      (fresh : ∀ q ∈ accepted, q.code = p.code → q.locale ≠ p.locale)
      (earliest : (accepted.filter (·.code = p.code)).head? = some first)
      (differs : first.defaultLocale ≠ p.defaultLocale) :
      Meets accepted (.ok p) (.rejected (disagreement p first))

theorem of_meets_variant {accepted : List Playbook} {content : Except PlaybookError Playbook}
    {p : Playbook} (hmeets : Meets accepted content (.variant p)) :
    (∀ q ∈ accepted, q.code = p.code → q.locale ≠ p.locale) ∧
      ∀ q ∈ accepted, q.code = p.code → q.defaultLocale = p.defaultLocale := by
  cases hmeets with
  | welcome fresh agrees => exact ⟨fresh, agrees⟩

/-- The offers in their order, each with its fate. -/
abbrev History := List (Offer × Fate)

namespace History

def variant? : Offer × Fate → Option Playbook
  | (_, .variant p) => some p
  | (_, .rejected _) => none

def rejection? : Offer × Fate → Option Rejection
  | (_, .variant _) => none
  | (o, .rejected reason) => some ⟨o.source, reason⟩

def variants (h : History) : List Playbook := h.filterMap variant?

def rejections (h : History) : List Rejection := h.filterMap rejection?

/-- Every fate is the one that the offer meets after the variants before it. -/
def Fair (h : History) : Prop :=
  ∀ before x after, h = before ++ x :: after → Meets (variants before) x.1.content x.2

theorem fair_nil : Fair [] := by
  intro before x after heq
  cases before <;> cases heq

theorem Fair.concat {h : History} (hfair : h.Fair) {x : Offer × Fate}
    (hx : Meets h.variants x.1.content x.2) : Fair (h ++ [x]) := by
  intro before y after heq
  rcases List.eq_nil_or_concat after with rfl | ⟨after, z, rfl⟩
  · obtain ⟨rfl, hyx⟩ := List.append_inj' heq rfl
    obtain rfl : x = y := (List.cons.inj hyx).1
    exact hx
  · have hsplit : h ++ [x] = (before ++ y :: after) ++ [z] := by
      rw [heq, List.concat_eq_append, List.append_assoc, List.cons_append]
    exact hfair before y after (List.append_inj' hsplit rfl).1

theorem Fair.front {h : History} {x : Offer × Fate} (hfair : Fair (h ++ [x])) : h.Fair := by
  intro before y after heq
  refine hfair before y (after ++ [x]) ?_
  rw [heq, List.append_assoc, List.cons_append]

theorem Fair.last {h : History} {x : Offer × Fate} (hfair : Fair (h ++ [x])) :
    Meets h.variants x.1.content x.2 :=
  hfair h x [] rfl

theorem variants_concat_variant (h : History) (o : Offer) (p : Playbook) :
    variants (h ++ [(o, .variant p)]) = h.variants ++ [p] := by
  rw [variants, List.filterMap_append]
  rfl

theorem variants_concat_rejected (h : History) (o : Offer) (e : PlaybookError) :
    variants (h ++ [(o, .rejected e)]) = h.variants := by
  rw [variants, List.filterMap_append]
  exact List.append_nil _

theorem rejections_concat_variant (h : History) (o : Offer) (p : Playbook) :
    rejections (h ++ [(o, .variant p)]) = h.rejections := by
  rw [rejections, List.filterMap_append]
  exact List.append_nil _

theorem rejections_concat_rejected (h : History) (o : Offer) (e : PlaybookError) :
    rejections (h ++ [(o, .rejected e)]) = h.rejections ++ [⟨o.source, e⟩] := by
  rw [rejections, List.filterMap_append]
  rfl

theorem Fair.pairwise {h : History} (hfair : h.Fair) :
    h.variants.Pairwise fun q p =>
      q.code = p.code → q.locale ≠ p.locale ∧ q.defaultLocale = p.defaultLocale := by
  induction h using List.reverseRecOn with
  | nil => exact List.Pairwise.nil
  | append_singleton h x ih =>
    have before := ih hfair.front
    obtain ⟨o, fate⟩ := x
    cases fate with
    | rejected e =>
      rw [variants_concat_rejected]
      exact before
    | variant p =>
      rw [variants_concat_variant]
      refine List.pairwise_append.mpr ⟨before, List.pairwise_singleton _ _, fun q hq p' hp' => ?_⟩
      rw [List.mem_singleton.mp hp']
      intro hcode
      obtain ⟨fresh, agrees⟩ := of_meets_variant hfair.last
      exact ⟨fresh q hq hcode, agrees q hq hcode⟩

theorem Fair.content_of_mem {h : History} (hfair : h.Fair) {p : Playbook} (hp : p ∈ h.variants) :
    ∃ x ∈ h, x.1.content = .ok p := by
  obtain ⟨x, hx, hvariant⟩ := List.mem_filterMap.mp hp
  obtain ⟨before, after, hsplit⟩ := List.append_of_mem hx
  have hmeets := hfair before x after hsplit
  obtain ⟨o, fate⟩ := x
  cases fate with
  | rejected e => cases hvariant
  | variant q =>
    obtain rfl : q = p := Option.some.inj hvariant
    dsimp only at hmeets
    cases hcontent : o.content with
    | error e =>
      rw [hcontent] at hmeets
      cases hmeets
    | ok q' =>
      rw [hcontent] at hmeets
      cases hmeets
      exact ⟨(o, .variant q), hx, hcontent⟩

end History

/-- The registry holds what its history accepted, and what that rejected. -/
structure Recounts (h : History) (r : Registry) : Prop where
  fair : h.Fair
  variants : ∀ code, r.variants code = h.variants.filter (·.code = code)
  rejected : r.rejected = h.rejections
  ordered : Fields.Ordered r.playbooks
  filled : ∀ code, Fields.get? code r.playbooks ≠ some []

theorem recounts_empty (fallback : String) : Recounts [] (empty fallback) :=
  ⟨History.fair_nil, fun _ => rfl, rfl, Fields.ordered_nil, fun _ => nofun⟩

theorem findLocale_isSome_iff (locale : String) (ps : List Playbook) :
    (findLocale locale ps).isSome = true ↔ ∃ q ∈ ps, q.locale = locale := by
  rw [findLocale, List.find?_isSome]
  simp only [beq_iff_eq]

variable {h : History} {r : Registry}

theorem Recounts.reject (hr : Recounts h r) {o : Offer} {e : PlaybookError}
    (hmeets : Meets h.variants o.content (.rejected e)) :
    Recounts (h ++ [(o, .rejected e)]) (r.reject o.source e) where
  fair := hr.fair.concat hmeets
  variants code := by
    rw [History.variants_concat_rejected]
    exact hr.variants code
  rejected := by
    rw [History.rejections_concat_rejected, ← hr.rejected]
    rfl
  ordered := hr.ordered
  filled := hr.filled

theorem Recounts.accept (hr : Recounts h r) {o : Offer} {p : Playbook}
    (hmeets : Meets h.variants o.content (.variant p)) :
    Recounts (h ++ [(o, .variant p)])
      { r with playbooks := Fields.insert p.code (r.variants p.code ++ [p]) r.playbooks } where
  fair := hr.fair.concat hmeets
  variants code := by
    rw [History.variants_concat_variant, List.filter_append, ← hr.variants code]
    rw [Registry.variants, Fields.get?_insert]
    by_cases hcode : p.code = code
    · subst hcode
      simp
    · simp [hcode, Registry.variants]
  rejected := by
    rw [History.rejections_concat_variant]
    exact hr.rejected
  ordered := hr.ordered.insert _ _
  filled code := by
    rw [Fields.get?_insert]
    split
    · simp
    · exact hr.filled code

/-- Variants of one code have the default locale of the first of them. -/
theorem History.Fair.defaultLocale_eq (hfair : h.Fair) {code : String} {first q : Playbook}
    (hfirst : (h.variants.filter (·.code = code)).head? = some first) (hq : q ∈ h.variants)
    (hcode : q.code = code) : q.defaultLocale = first.defaultLocale := by
  obtain ⟨rest, hrest⟩ := List.head?_eq_some_iff.mp hfirst
  have mem {x : Playbook} : x ∈ first :: rest ↔ x ∈ h.variants ∧ x.code = code := by
    rw [← hrest, List.mem_filter, decide_eq_true_eq]
  rcases List.mem_cons.mp (mem.mpr ⟨hq, hcode⟩) with rfl | hmem
  · rfl
  · have hpairs := hfair.pairwise.filter (·.code = code)
    rw [hrest] at hpairs
    have hcodes : first.code = q.code := (mem.mp List.mem_cons_self).2.trans hcode.symm
    exact ((List.pairwise_cons.mp hpairs).1 q hmem hcodes).2.symm

/-- A playbook is rejected for its conflict with the variants of its code, or it is welcome. -/
theorem History.Fair.meets (hfair : h.Fair) (p : Playbook) :
    Meets h.variants (.ok p)
      (match conflict? (h.variants.filter (·.code = p.code)) p with
        | some e => .rejected e
        | none => .variant p) := by
  have mem {q : Playbook} : q ∈ h.variants.filter (·.code = p.code) ↔
      q ∈ h.variants ∧ q.code = p.code := by
    rw [List.mem_filter, decide_eq_true_eq]
  unfold conflict?
  by_cases hrepeated : (findLocale p.locale (h.variants.filter (·.code = p.code))).isSome = true
  · obtain ⟨q, hq, hlocale⟩ := (findLocale_isSome_iff _ _).mp hrepeated
    rw [if_pos hrepeated]
    exact .repeated (mem.mp hq).1 (mem.mp hq).2 hlocale
  · have fresh : ∀ q ∈ h.variants, q.code = p.code → q.locale ≠ p.locale := by
      intro q hq hcode hlocale
      exact hrepeated ((findLocale_isSome_iff _ _).mpr ⟨q, mem.mpr ⟨hq, hcode⟩, hlocale⟩)
    rw [if_neg hrepeated]
    cases hvariants : h.variants.filter (·.code = p.code) with
    | nil => exact .welcome fresh fun q hq hcode => by simpa [hvariants] using mem.mpr ⟨hq, hcode⟩
    | cons first rest =>
      have earliest : (h.variants.filter (·.code = p.code)).head? = some first := by
        rw [hvariants, List.head?_cons]
      by_cases hdefault : first.defaultLocale = p.defaultLocale
      · simp only [if_pos hdefault]
        exact .welcome fresh fun q hq hcode =>
          (hfair.defaultLocale_eq earliest hq hcode).trans hdefault
      · simp only [if_neg hdefault]
        exact .disagrees fresh earliest hdefault

/-- The next offer meets a fate, and the registry follows it. -/
theorem Recounts.add (hr : Recounts h r) (o : Offer) :
    ∃ fate, Recounts (h ++ [(o, fate)]) (r.add o.source o.content) := by
  obtain ⟨source, content⟩ := o
  cases content with
  | error e => exact ⟨.rejected e, hr.reject .invalid⟩
  | ok p =>
    have hmeets := hr.fair.meets p
    rw [← hr.variants] at hmeets
    change ∃ fate, Recounts (h ++ [(⟨source, .ok p⟩, fate)]) (r.insert source p)
    rw [Registry.insert]
    cases hconflict : conflict? (r.variants p.code) p with
    | some e =>
      rw [hconflict] at hmeets
      exact ⟨.rejected e, hr.reject (o := ⟨source, .ok p⟩) hmeets⟩
    | none =>
      rw [hconflict] at hmeets
      exact ⟨.variant p, hr.accept (o := ⟨source, .ok p⟩) hmeets⟩

/-- However many offers come, each has a fate. -/
theorem Recounts.addAll (hr : Recounts h r) (offers : List Offer) :
    ∃ more : History, more.map Prod.fst = offers ∧
      Recounts (h ++ more) (offers.foldl (fun r o => r.add o.source o.content) r) := by
  induction offers generalizing h r with
  | nil => exact ⟨[], rfl, by rwa [List.append_nil]⟩
  | cons o offers ih =>
    obtain ⟨fate, hadd⟩ := hr.add o
    obtain ⟨more, hmore, hall⟩ := ih hadd
    refine ⟨(o, fate) :: more, ?_, ?_⟩
    · rw [List.map_cons, hmore]
    · rwa [List.append_assoc] at hall

/-- The variant whose locale is the first of the wanted ones that is there, else the first one. -/
def IsBest (variants : List Playbook) (wanted : List String) (p : Playbook) : Prop :=
  (∃ before after, wanted = before ++ p.locale :: after ∧ p ∈ variants ∧
      ∀ locale ∈ before, ∀ q ∈ variants, q.locale ≠ locale) ∨
    (∀ locale ∈ wanted, ∀ q ∈ variants, q.locale ≠ locale) ∧ variants.head? = some p

theorem isBest_nil {variants : List Playbook} {p : Playbook} (hp : variants.head? = some p) :
    IsBest variants [] p :=
  .inr ⟨fun _ h => absurd h List.not_mem_nil, hp⟩

theorem IsBest.findLocale {variants : List Playbook} {wanted : List String} {p : Playbook}
    (hp : IsBest variants wanted p) (locale : String) :
    IsBest variants (locale :: wanted) ((findLocale locale variants).getD p) := by
  cases hfind : Registry.findLocale locale variants with
  | some q =>
    have hlocale : q.locale = locale := by simpa using List.find?_some hfind
    refine .inl ⟨[], wanted, ?_, List.mem_of_find?_eq_some hfind, fun _ h => ?_⟩
    · rw [Option.getD_some, hlocale, List.nil_append]
    · exact absurd h List.not_mem_nil
  | none =>
    have absent : ∀ q ∈ variants, q.locale ≠ locale := by
      intro q hq hlocale
      exact List.find?_eq_none.mp hfind q hq (beq_iff_eq.mpr hlocale)
    rw [Option.getD_none]
    rcases hp with ⟨before, after, rfl, hmem, hbefore⟩ | ⟨hwanted, hhead⟩
    · refine .inl ⟨locale :: before, after, rfl, hmem, fun l hl => ?_⟩
      rcases List.mem_cons.mp hl with rfl | hl
      · exact absent
      · exact hbefore l hl
    · refine .inr ⟨fun l hl => ?_, hhead⟩
      rcases List.mem_cons.mp hl with rfl | hl
      · exact absent
      · exact hwanted l hl

theorem IsBest.mem {variants : List Playbook} {wanted : List String} {p : Playbook}
    (hp : IsBest variants wanted p) : p ∈ variants := by
  rcases hp with ⟨_, _, _, hmem, _⟩ | ⟨_, hhead⟩
  · exact hmem
  · exact List.mem_of_head? hhead

/-- What a registry is, given what was offered to it. -/
structure Sifted (fallback : String) (offers : List Offer) (r : Registry) : Prop where
  /-- Each offer has one fate; the variants and the rejections keep the order of the offers. -/
  history : ∃ h : History, h.map Prod.fst = offers ∧ h.Fair ∧
    (∀ code, r.variants code = h.variants.filter (·.code = code)) ∧ r.rejected = h.rejections
  distinct : ∀ code, (r.variants code).Pairwise fun p q => p.locale ≠ q.locale
  agreeing : ∀ code, ∀ p ∈ r.variants code, ∀ q ∈ r.variants code,
    p.defaultLocale = q.defaultLocale
  valid : ∀ code, ∀ p ∈ r.variants code, p.code = code ∧ p.validate = .ok ()
  missing : ∀ code locale,
    r.resolve code locale = .error (.notFound code) ↔ r.variants code = []
  found : ∀ code locale, r.variants code ≠ [] → ∃ p, r.resolve code locale = .ok p ∧
    IsBest (r.variants code) [locale, p.defaultLocale, fallback] p
  codes : r.codes.Pairwise (· < ·) ∧ ∀ code, code ∈ r.codes ↔ r.variants code ≠ []
  listed : r.list.map (·.code) = r.codes ∧
    ∀ p ∈ r.list, r.resolve p.code p.defaultLocale = .ok p

theorem Recounts.mem_variants (hr : Recounts h r) {code : String} {p : Playbook} :
    p ∈ r.variants code ↔ p ∈ h.variants ∧ p.code = code := by
  rw [hr.variants, List.mem_filter, decide_eq_true_eq]

theorem Recounts.pairwise (hr : Recounts h r) (code : String) :
    (r.variants code).Pairwise fun p q =>
      p.locale ≠ q.locale ∧ p.defaultLocale = q.defaultLocale := by
  have hpairs := hr.fair.pairwise.filter (·.code = code)
  rw [← hr.variants] at hpairs
  refine hpairs.imp_of_mem fun hp hq hrel => hrel ?_
  rw [(hr.mem_variants.mp hp).2, (hr.mem_variants.mp hq).2]

theorem Recounts.agreeing (hr : Recounts h r) (code : String) :
    ∀ p ∈ r.variants code, ∀ q ∈ r.variants code, p.defaultLocale = q.defaultLocale := by
  intro p hp q hq
  let Agree (p q : Playbook) : Prop := p.defaultLocale = q.defaultLocale
  have symm : Std.Symm Agree := ⟨fun _ _ h => h.symm⟩
  have refl : ∀ x ∈ r.variants code, Agree x x := fun _ _ => rfl
  have hpairs : (r.variants code).Pairwise Agree := (hr.pairwise code).imp fun h => h.2
  exact hpairs.forall_of_forall refl hp hq

theorem Recounts.mem_codes (hr : Recounts h r) (code : String) :
    code ∈ r.codes ↔ r.variants code ≠ [] := by
  rw [Registry.codes, Fields.mem_keys_iff, Registry.variants]
  cases hget : Fields.get? code r.playbooks with
  | none => simp
  | some ps =>
    have hps : ps ≠ [] := fun h => hr.filled code (h ▸ hget)
    simpa using hps

theorem resolve_of_nil {code : String} (hnil : r.variants code = []) (locale : String) :
    r.resolve code locale = .error (.notFound code) := by
  rw [resolve, hnil]

theorem Recounts.resolve (hr : Recounts h r) {code : String} (hne : r.variants code ≠ [])
    (locale : String) : ∃ p, r.resolve code locale = .ok p ∧
      IsBest (r.variants code) [locale, p.defaultLocale, r.fallbackLocale] p := by
  obtain ⟨first, rest, hvariants⟩ := List.exists_cons_of_ne_nil hne
  have hhead : (r.variants code).head? = some first := by
    rw [hvariants]
    rfl
  obtain ⟨p, hp, best⟩ : ∃ p, r.resolve code locale = .ok p ∧
      IsBest (r.variants code) [locale, first.defaultLocale, r.fallbackLocale] p := by
    refine ⟨_, ?_, (((isBest_nil hhead).findLocale r.fallbackLocale).findLocale
      first.defaultLocale).findLocale locale⟩
    simp only [Registry.resolve, hvariants]
  rw [← hr.agreeing code p best.mem first (List.mem_of_head? hhead)] at best
  exact ⟨p, hp, best⟩

/-- The playbook that is listed for a code. -/
def listed? (r : Registry) (code : String) : Option Playbook :=
  (r.variants code).head?.bind fun first => (r.resolve code first.defaultLocale).toOption

theorem Recounts.listed (hr : Recounts h r) {code : String} (hcode : code ∈ r.codes) :
    ∃ p, r.listed? code = some p ∧ p.code = code ∧
      r.resolve p.code p.defaultLocale = .ok p := by
  obtain ⟨first, rest, hvariants⟩ :=
    List.exists_cons_of_ne_nil ((hr.mem_codes code).mp hcode)
  have hfirst : first ∈ r.variants code := hvariants ▸ List.mem_cons_self
  obtain ⟨p, hp, hbest⟩ := hr.resolve (hvariants ▸ List.cons_ne_nil _ _) first.defaultLocale
  have hpcode : p.code = code := (hr.mem_variants.mp hbest.mem).2
  refine ⟨p, ?_, hpcode, ?_⟩
  · rw [listed?, hvariants, List.head?_cons, Option.bind_some, hp]
    rfl
  · rw [hpcode, hr.agreeing code p hbest.mem first hfirst, hp]

theorem map_filterMap_of_some {α β : Type} {f : α → Option β} {g : β → α} {xs : List α}
    (h : ∀ x ∈ xs, ∃ y, f x = some y ∧ g y = x) : (xs.filterMap f).map g = xs := by
  induction xs with
  | nil => rfl
  | cons x xs ih =>
    obtain ⟨y, hy, hg⟩ := h x List.mem_cons_self
    rw [List.filterMap_cons_some hy, List.map_cons, hg,
      ih fun x' hx' => h x' (List.mem_cons_of_mem _ hx')]

theorem Recounts.list (hr : Recounts h r) : r.list.map (·.code) = r.codes ∧
    ∀ p ∈ r.list, r.resolve p.code p.defaultLocale = .ok p := by
  have hlist : r.list = r.codes.filterMap r.listed? := rfl
  rw [hlist]
  constructor
  · refine map_filterMap_of_some fun code hcode => ?_
    obtain ⟨p, hp, hpcode, -⟩ := hr.listed hcode
    exact ⟨p, hp, hpcode⟩
  · intro q hq
    obtain ⟨code, hcode, hsome⟩ := List.mem_filterMap.mp hq
    obtain ⟨p, hp, -, hresolve⟩ := hr.listed hcode
    obtain rfl : p = q := Option.some.inj (hp.symm.trans hsome)
    exact hresolve

theorem fallbackLocale_foldl_add (offers : List Offer) (r : Registry) :
    (offers.foldl (fun r o => r.add o.source o.content) r).fallbackLocale = r.fallbackLocale := by
  induction offers generalizing r with
  | nil => rfl
  | cons o offers ih =>
    rw [List.foldl_cons, ih]
    cases o.content with
    | error e => rfl
    | ok p =>
      rw [add, insert]
      split <;> rfl

/-- A registry that takes in checked offers one after the other is sifted. -/
theorem sifted_of_checked (fallback : String) {offers : List Offer}
    (hchecked : ∀ o ∈ offers, o.Checked) :
    (offers.foldl (fun r o => r.add o.source o.content) (empty fallback)).Sifted fallback
      offers := by
  obtain ⟨h, hoffers, hr⟩ := (recounts_empty fallback).addAll offers
  have hfallback := fallbackLocale_foldl_add offers (empty fallback)
  generalize offers.foldl (fun r o => r.add o.source o.content) (empty fallback) = r
    at hr hfallback
  rw [List.nil_append] at hr
  refine ⟨⟨h, hoffers, hr.fair, hr.variants, hr.rejected⟩, fun code => ?_, hr.agreeing,
    fun code p hp => ?_, fun code locale => ?_, fun code locale hne => ?_,
    ⟨?_, hr.mem_codes⟩, hr.list⟩
  · exact (hr.pairwise code).imp fun h => h.1
  · obtain ⟨hp, hcode⟩ := hr.mem_variants.mp hp
    obtain ⟨x, hx, hcontent⟩ := hr.fair.content_of_mem hp
    have hoffer : x.1 ∈ offers := hoffers ▸ List.mem_map_of_mem hx
    exact ⟨hcode, hchecked x.1 hoffer p hcontent⟩
  · refine ⟨fun herror => ?_, fun hnil => resolve_of_nil hnil locale⟩
    by_contra hne
    obtain ⟨p, hp, -⟩ := hr.resolve hne locale
    rw [hp] at herror
    cases herror
  · obtain ⟨p, hp, hbest⟩ := hr.resolve hne locale
    rw [hfallback] at hbest
    exact ⟨p, hp, hbest⟩
  · exact List.pairwise_map.mpr hr.ordered

/-- Whatever playbooks are given, and whatever files a directory holds, the registry is sifted from
them. -/
theorem loaded_registry_sifted (fallback : String) :
    (∀ ps : List Playbook, (ofPlaybooks fallback ps).Sifted fallback (ps.map Offer.ofPlaybook)) ∧
      ∀ (shown : String) (files : List (Path × ByteArray)), ∃ r : Registry,
        ofDirectory shown fallback (some files) = .ok r ∧
          r.Sifted fallback (Offer.ofDirectory shown files) := by
  constructor
  · intro ps
    have hchecked : ∀ o ∈ ps.map Offer.ofPlaybook, o.Checked := by
      intro o ho
      obtain ⟨p, -, rfl⟩ := List.mem_map.mp ho
      exact Offer.checked_ofPlaybook p
    have hsifted := sifted_of_checked fallback hchecked
    rwa [List.foldl_map] at hsifted
  · intro shown files
    have hsifted := sifted_of_checked fallback (Offer.checked_ofDirectory shown files)
    rw [Offer.ofDirectory, List.foldl_map] at hsifted
    exact ⟨_, rfl, hsifted⟩

end PlaybookEngine.Registry
