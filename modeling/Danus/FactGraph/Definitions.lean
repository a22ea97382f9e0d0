import Danus.FactGraph.Revocation

/-! The definitions that a context selects: those whose notation occurs in its texts, and what these refer to. -/
namespace Danus.FactGraph.Contexts
open Python Revocation Sweeps

section Source

/-- `[A-Za-z0-9_]` -/
def isIdentifierChar (c : Char) : Bool := isAlnumAscii c || c == '_'

variable [Runtime]

/-- Whether a match must end where an identifier does, by the first or the last character of its term. -/
def needsBoundary (c : Char) : Bool := Runtime.isAlnum c || c == '_'

/-- The search of `_term_occurs` from here on, with the character before. -/
def occursFrom (term : PyStr) (before : Option Char) : PyStr → Bool
  | [] => false
  | c :: cs =>
    let after := ((c :: cs).drop term.length).head?
    (term.isPrefixOf (c :: cs) &&
      (!term.head?.any needsBoundary || !before.any isIdentifierChar) &&
      (!term.getLast?.any needsBoundary || !after.any isIdentifierChar)) ||
    occursFrom term (some c) cs

/-- `_term_occurs` -/
def termOccurs (term text : PyStr) : Bool :=
  if term = [] ∨ text = [] then false else occursFrom term none text

/-- The loop of `select_referenced_definitions`. -/
def selectFrom : Nat → List PyStr → List (PyStr × PyStr) → List (PyStr × PyStr) → List (PyStr × PyStr)
  | 0, _, _, selected => selected
  | _ + 1, [], _, selected => selected
  | fuel + 1, text :: pending, remaining, selected =>
    if remaining = [] then selected
    else
      let matched := Json.sortByKey (remaining.filter fun kv => termOccurs kv.1 text)
      selectFrom fuel (pending ++ (matched.map Prod.snd).filter (· ≠ []))
        (remaining.filter fun kv => !termOccurs kv.1 text) (selected ++ matched)

/-- `select_referenced_definitions` -/
def selectReferencedDefinitions (texts : List PyStr) (available : List (PyStr × PyStr)) : List (PyStr × PyStr) :=
  let remaining := available.filter (·.1 ≠ [])
  let pending := texts.filter (· ≠ [])
  Json.sortByKey (selectFrom (pending.length + remaining.length + 1) pending remaining [])

/-- The value of a JSON object whose values are all strings. -/
def stringItems : List (PyStr × Json) → Option (List (PyStr × PyStr))
  | [] => some []
  | (k, .str v) :: rest => (stringItems rest).map ((k, v) :: ·)
  | _ => none

/-- `_read_project_glossary(strict=True)` -/
def readProjectGlossary (g : Graph) : Except GraphError (List (PyStr × PyStr)) :=
  match g.glossary with
  | none => .ok []
  | some text => do
    match Json.parse (← readText text) with
    | none => throw (.value "glossary_integrity_error: project glossary is unreadable".toList)
    | some (.obj payload) =>
      match stringItems payload with
      | none => throw (.value "glossary_integrity_error: project glossary must map strings to strings".toList)
      | some loaded =>
        let conflicts := sortStr ((loaded.filter fun kv =>
          (Runtime.globalGlossary.lookup kv.1).any (· != kv.2)).map Prod.fst)
        if conflicts ≠ [] then
          throw (.value ("glossary_integrity_error: project glossary conflicts with global terms: ".toList ++
            joinWith ", ".toList conflicts))
        return loaded
    | some _ => throw (.value "glossary_integrity_error: project glossary must map strings to strings".toList)

/-- `d[key] = value` -/
def setTerm (items : List (PyStr × PyStr)) (kv : PyStr × PyStr) : List (PyStr × PyStr) :=
  if items.any (·.1 == kv.1) then items.map fun p => if p.1 == kv.1 then kv else p else items ++ [kv]

/-- `_resolved_glossary_for_texts` -/
def resolvedGlossaryForTexts (g : Graph) (texts excludedTerms : List PyStr) (includeProjectGlossary : Bool) :
    Except GraphError (List (PyStr × PyStr)) := do
  let project ← if includeProjectGlossary then readProjectGlossary g else .ok []
  let available := project.foldl setTerm Runtime.globalGlossary
  return selectReferencedDefinitions texts
    (available.filter fun kv => decide (kv.1 ≠ []) && decide (kv.1 ∉ excludedTerms))

end Source

section Selection
variable [Runtime] {available remaining selected : List (PyStr × PyStr)} {texts pending : List PyStr} {text : PyStr}

/-- The definitions whose notation occurs in a text. -/
def mentioned (available : List (PyStr × PyStr)) (text : PyStr) : List (PyStr × PyStr) :=
  available.filter fun kv => termOccurs kv.1 text

/-- A definition that the texts refer to, themselves or over other definitions. -/
def Referenced (texts : List PyStr) (available : List (PyStr × PyStr)) : PyStr × PyStr → Prop :=
  Reached (fun kv => mentioned available kv.2) (texts.flatMap (mentioned available))

/-- The loop between two texts. -/
structure Selecting (texts : List PyStr) (available : List (PyStr × PyStr)) (pending : List PyStr)
    (remaining selected : List (PyStr × PyStr)) : Prop where
  perm : (selected ++ remaining).Perm available
  sound : ∀ kv ∈ selected, Referenced texts available kv
  source : ∀ t ∈ pending, t ∈ texts ∨ ∃ kv ∈ selected, kv.2 = t
  searched : ∀ t, t ∈ texts ∨ (∃ kv ∈ selected, kv.2 = t) → t ∈ pending ∨
    ∀ kv ∈ remaining, termOccurs kv.1 t = false

theorem termOccurs_nil (term : PyStr) : termOccurs term [] = false := by
  rw [termOccurs, if_pos (.inr rfl)]

theorem nil_termOccurs (text : PyStr) : termOccurs [] text = false := by
  rw [termOccurs, if_pos (.inl rfl)]

theorem Selecting.visit (h : Selecting texts available (text :: pending) remaining selected) :
    Selecting texts available
      (pending ++ ((Json.sortByKey (mentioned remaining text)).map Prod.snd).filter (· ≠ []))
      (remaining.filter fun kv => !termOccurs kv.1 text)
      (selected ++ Json.sortByKey (mentioned remaining text)) := by
  have hmatched : ∀ kv, kv ∈ Json.sortByKey (mentioned remaining text) ↔
      kv ∈ remaining ∧ termOccurs kv.1 text = true := by
    intro kv
    rw [(Json.sortByKey_perm _).mem_iff, mentioned, List.mem_filter]
  have havailable : ∀ kv ∈ remaining, kv ∈ available :=
    fun kv hkv => h.perm.mem_iff.mp (List.mem_append_right _ hkv)
  have hfound : ∀ kv ∈ Json.sortByKey (mentioned remaining text), Referenced texts available kv := by
    intro kv hkv
    obtain ⟨hr, hocc⟩ := (hmatched kv).mp hkv
    have hmem : kv ∈ mentioned available text := List.mem_filter.mpr ⟨havailable kv hr, hocc⟩
    rcases h.source text List.mem_cons_self with ht | ⟨kv', hkv', rfl⟩
    · exact .seed (List.mem_flatMap.mpr ⟨text, ht, hmem⟩)
    · exact .step (h.sound kv' hkv') hmem
  refine ⟨?_, fun kv hkv => ?_, fun t ht => ?_, fun t ht => ?_⟩
  · have hsplit : (mentioned remaining text ++ remaining.filter fun kv => !termOccurs kv.1 text).Perm remaining :=
      List.filter_append_perm _ _
    rw [List.append_assoc]
    exact (((Json.sortByKey_perm _).append_right _).trans hsplit).append_left selected |>.trans h.perm
  · rcases List.mem_append.mp hkv with hkv | hkv
    · exact h.sound kv hkv
    · exact hfound kv hkv
  · rcases List.mem_append.mp ht with ht | ht
    · rcases h.source t (List.mem_cons_of_mem _ ht) with ht | ⟨kv, hkv, he⟩
      · exact .inl ht
      · exact .inr ⟨kv, List.mem_append_left _ hkv, he⟩
    · obtain ⟨kv, hkv, he⟩ := List.mem_map.mp (List.mem_filter.mp ht).1
      exact .inr ⟨kv, List.mem_append_right _ hkv, he⟩
  · have hleft : ∀ kv ∈ remaining.filter fun kv => !termOccurs kv.1 text,
        kv ∈ remaining ∧ termOccurs kv.1 text = false := by
      intro kv hkv
      obtain ⟨hr, hno⟩ := List.mem_filter.mp hkv
      exact ⟨hr, by simpa using hno⟩
    have hold : t ∈ texts ∨ (∃ kv ∈ selected, kv.2 = t) →
        t ∈ pending ++ ((Json.sortByKey (mentioned remaining text)).map Prod.snd).filter (· ≠ []) ∨
        ∀ kv ∈ remaining.filter fun kv => !termOccurs kv.1 text, termOccurs kv.1 t = false := by
      intro ht
      rcases h.searched t ht with hp | hno
      · rcases List.mem_cons.mp hp with rfl | hp
        · exact .inr fun kv hkv => (hleft kv hkv).2
        · exact .inl (List.mem_append_left _ hp)
      · exact .inr fun kv hkv => hno kv (hleft kv hkv).1
    rcases ht with ht | ⟨kv, hkv, rfl⟩
    · exact hold (.inl ht)
    · rcases List.mem_append.mp hkv with hkv | hkv
      · exact hold (.inr ⟨kv, hkv, rfl⟩)
      · by_cases hnil : kv.2 = []
        · rw [hnil]
          exact .inr fun other _ => termOccurs_nil other.1
        · refine .inl (List.mem_append_right _ (List.mem_filter.mpr ⟨List.mem_map_of_mem hkv, ?_⟩))
          simpa using hnil

/-- Where nothing is left to search, the definitions that are referred to are the selected ones. -/
theorem Selecting.ends (h : Selecting texts available pending remaining selected)
    (hend : pending = [] ∨ remaining = []) (kv : PyStr × PyStr) :
    kv ∈ selected ↔ Referenced texts available kv := by
  refine ⟨h.sound kv, fun hkv => ?_⟩
  have hin : ∀ kv ∈ available, kv ∈ selected ∨ kv ∈ remaining :=
    fun kv hkv => List.mem_append.mp (h.perm.mem_iff.mpr hkv)
  have hclosed : ∀ t, t ∈ texts ∨ (∃ kv ∈ selected, kv.2 = t) → ∀ kv ∈ mentioned available t, kv ∈ selected := by
    intro t ht kv hkv
    obtain ⟨hav, hocc⟩ := List.mem_filter.mp hkv
    rcases hin kv hav with hs | hr
    · exact hs
    · rcases hend with rfl | rfl
      · rcases h.searched t ht with hp | hno
        · cases hp
        · rw [hno kv hr] at hocc
          cases hocc
      · cases hr
  induction hkv with
  | seed hs =>
    obtain ⟨t, ht, hmem⟩ := List.mem_flatMap.mp hs
    exact hclosed t (.inl ht) _ hmem
  | step _ hp ih => exact hclosed _ (.inr ⟨_, ih, rfl⟩) _ hp

/-- With a step for each text and each definition, the loop comes to its end. -/
theorem selectFrom_ends (fuel : Nat) (hfuel : pending.length + remaining.length < fuel)
    (h : Selecting texts available pending remaining selected) :
    ((selectFrom fuel pending remaining selected).map Prod.fst).Subperm (available.map Prod.fst) ∧
    ∀ kv, kv ∈ selectFrom fuel pending remaining selected ↔ Referenced texts available kv := by
  have hsub : ∀ {selected remaining : List (PyStr × PyStr)}, (selected ++ remaining).Perm available →
      (selected.map Prod.fst).Subperm (available.map Prod.fst) := by
    intro selected remaining hp
    refine List.Subperm.trans ?_ (hp.map Prod.fst).subperm
    rw [List.map_append]
    exact (List.sublist_append_left _ _).subperm
  induction fuel generalizing pending remaining selected with
  | zero => omega
  | succ fuel ih =>
    cases pending with
    | nil => exact ⟨hsub h.perm, h.ends (.inl rfl)⟩
    | cons text pending =>
      rw [selectFrom]
      split
      · next hnone => exact ⟨hsub h.perm, h.ends (.inr hnone)⟩
      · refine ih ?_ h.visit
        have hlength : (mentioned remaining text).length +
            (remaining.filter fun kv => !termOccurs kv.1 text).length = remaining.length := by
          rw [← List.length_append]
          exact (List.filter_append_perm _ remaining).length_eq
        have hnew : (((Json.sortByKey (mentioned remaining text)).map Prod.snd).filter (· ≠ [])).length ≤
            (mentioned remaining text).length := by
          refine (List.length_filter_le _ _).trans ?_
          rw [List.length_map, (Json.sortByKey_perm _).length_eq]
        rw [mentioned] at hlength hnew
        rw [List.length_append]
        rw [List.length_cons] at hfuel
        omega

/-- The definitions that texts refer to, over any chain of definitions, are selected: each once, in their order, and
no others. -/
theorem select_exact (texts : List PyStr) (available : List (PyStr × PyStr))
    (hkeys : (available.map Prod.fst).Nodup) :
    ((selectReferencedDefinitions texts available).map Prod.fst).Nodup ∧
    (selectReferencedDefinitions texts available).Pairwise (fun a b => Json.strLe a.1 b.1 = true) ∧
    ∀ kv, kv ∈ selectReferencedDefinitions texts available ↔ Referenced texts available kv := by
  have hterms : ∀ t, mentioned (available.filter (·.1 ≠ [])) t = mentioned available t := by
    intro t
    rw [mentioned, mentioned, List.filter_filter]
    refine List.filter_congr fun kv _ => ?_
    by_cases hnil : kv.1 = []
    · rw [hnil, nil_termOccurs]
      rfl
    · simp [hnil]
  have hseeds : ∀ kv, kv ∈ (texts.filter (· ≠ [])).flatMap (mentioned available) ↔
      kv ∈ texts.flatMap (mentioned available) := by
    intro kv
    simp only [List.mem_flatMap, List.mem_filter, decide_eq_true_eq]
    constructor
    · rintro ⟨t, ⟨ht, _⟩, hm⟩
      exact ⟨t, ht, hm⟩
    · rintro ⟨t, ht, hm⟩
      refine ⟨t, ⟨ht, ?_⟩, hm⟩
      rintro rfl
      rw [mentioned, List.mem_filter, termOccurs_nil] at hm
      cases hm.2
  have hsame : ∀ kv, Referenced (texts.filter (· ≠ [])) (available.filter (·.1 ≠ [])) kv ↔
      Referenced texts available kv := by
    intro kv
    rw [Referenced, Referenced, show mentioned (available.filter (·.1 ≠ [])) = mentioned available from funext hterms]
    exact ⟨fun h => h.closed (fun s hs => .seed ((hseeds s).mp hs)) fun a ha p hp => .step ha hp,
      fun h => h.closed (fun s hs => .seed ((hseeds s).mpr hs)) fun a ha p hp => .step ha hp⟩
  have hstart : Selecting (texts.filter (· ≠ [])) (available.filter (·.1 ≠ [])) (texts.filter (· ≠ []))
      (available.filter (·.1 ≠ [])) [] := by
    refine ⟨List.Perm.refl _, fun kv hkv => absurd hkv List.not_mem_nil, fun t ht => .inl ht, fun t ht => .inl ?_⟩
    rcases ht with ht | ⟨kv, hkv, _⟩
    · exact ht
    · cases hkv
  obtain ⟨hsub, hmem⟩ := selectFrom_ends _ (Nat.lt_succ_self _) hstart
  have hperm := Json.sortByKey_perm (selectFrom ((texts.filter (· ≠ [])).length +
    (available.filter (·.1 ≠ [])).length + 1) (texts.filter (· ≠ [])) (available.filter (·.1 ≠ [])) [])
  obtain ⟨keys, hkeysPerm, hkeysSub⟩ := hsub
  have hnodup := hkeysPerm.nodup_iff.mp ((hkeys.sublist (List.filter_sublist.map _)).sublist hkeysSub)
  refine ⟨(hperm.map Prod.fst).nodup_iff.mpr hnodup, Json.sortByKey_pairwise _, fun kv => ?_⟩
  rw [selectReferencedDefinitions, hperm.mem_iff, hmem, hsame]

end Selection

theorem select_exact_followed :
    let _ : Runtime := asciiRuntime
    let available := [("k".toList, "rank".toList), ("w".toList, "of k".toList), ("u".toList, "unit".toList)]
    selectReferencedDefinitions ["let w be".toList] available =
        [("k".toList, "rank".toList), ("w".toList, "of k".toList)] ∧
      ∀ kv, kv ∈ selectReferencedDefinitions ["let w be".toList] available ↔
        Referenced ["let w be".toList] available kv := by
  let _ : Runtime := asciiRuntime
  refine ⟨by decide +kernel, ?_⟩
  exact (select_exact ["let w be".toList]
    [("k".toList, "rank".toList), ("w".toList, "of k".toList), ("u".toList, "unit".toList)] (by decide)).2.2

end Danus.FactGraph.Contexts
