import Danus.FactGraph.ExternalRefs
import Danus.Lib.Checks
import Danus.Lib.JsonSorted
import Danus.Observability.App

/-! Editing the bibliography of a fact: the one line that is written anew, and what the readers of the file
make of all its lines afterwards. -/
namespace Danus.FactGraph
open Python

section Cleaning

/-- An entry of the references that are given: a Python dict, or anything else. -/
inductive GivenRef where
  | dict (r : ExternalRef)
  | other (value : Json)

/-- The items in the order of `clean_external_refs`: the known keys first, any others sorted. -/
def orderedItems (items : List (PyStr × Json)) : List (PyStr × Json) :=
  externalRefKeys.filterMap (fun k => (items.lookup k).map fun v => (k, v)) ++
    Json.sortByKey (items.filter fun kv => kv.1 ∉ externalRefKeys)

theorem orderedItems_distinct {items : List (PyStr × Json)} (h : (Json.obj items).distinctKeys = true) :
    (Json.obj (orderedItems items)).distinctKeys = true := by
  obtain ⟨hkeys, hvalues⟩ := (Json.distinct_obj items).mp h
  have hsort := Json.sortByKey_perm (items.filter fun kv => kv.1 ∉ externalRefKeys)
  rw [Json.distinct_obj]
  have hmem : ∀ kv ∈ orderedItems items, kv ∈ items := by
    intro kv hkv
    rcases List.mem_append.mp hkv with hkv | hkv
    · obtain ⟨k, _, hk⟩ := List.mem_filterMap.mp hkv
      obtain ⟨v, hv, rfl⟩ := Option.map_eq_some_iff.mp hk
      exact mem_of_lookup_eq_some hv
    · exact (List.mem_filter.mp (hsort.mem_iff.mp hkv)).1
  refine ⟨?_, fun kv hkv => hvalues kv (hmem kv hkv)⟩
  have hknown : (externalRefKeys.filterMap fun k => (items.lookup k).map fun v => (k, v)).map Prod.fst =
      externalRefKeys.filter fun k => (items.lookup k).isSome := by
    rw [List.map_filterMap, ← List.filterMap_eq_filter]
    refine List.filterMap_congr fun k _ => ?_
    cases hl : items.lookup k with
    | none => simp only [Option.map_none, Option.guard, hl, Option.isSome_none, Bool.false_eq_true, if_false]
    | some v => simp only [Option.map_some, Option.guard, hl, Option.isSome_some, if_true]
  rw [orderedItems, List.map_append, hknown, List.nodup_append]
  refine ⟨List.Nodup.filter _ (by decide), ?_, ?_⟩
  · rw [(hsort.map Prod.fst).nodup_iff]
    exact (List.filter_sublist.map Prod.fst).nodup hkeys
  · intro a ha b hb hab
    obtain ⟨kv, hkv, rfl⟩ := List.mem_map.mp hb
    have hother := (List.mem_filter.mp (hsort.mem_iff.mp hkv)).2
    rw [decide_eq_true_iff] at hother
    exact hother (hab ▸ (List.mem_filter.mp ha).1)

/-- `clean_external_refs` -/
def cleanExternalRefs (entries : List GivenRef) : List ExternalRef :=
  entries.filterMap fun
    | .dict r => some ⟨orderedItems r.items, orderedItems_distinct r.distinct⟩
    | .other _ => none

end Cleaning

section Readers
variable [Runtime]

/-- The lines of the frontmatter between its marks. -/
def frontLines (lines : List PyStr) : List PyStr := (lines.drop 1).takeWhile fun line => strip line ≠ "---".toList

/-- The closing mark and the lines after it. -/
def restLines (lines : List PyStr) : List PyStr := (lines.drop 1).dropWhile fun line => strip line ≠ "---".toList

/-- The author, as the dashboard reads the lines of the frontmatter. -/
def authorOf (text : PyStr) : Option Observability.Field :=
  (Observability.frontmatter (frontmatterOf (splitlines text))).lookup "author".toList

/-- The intuition, as the dashboard reads the lines of the body. -/
def intuitionOf (text : PyStr) : PyStr :=
  strip (Observability.readSections (joinWith ['\n'] ((restLines (splitlines text)).drop 1)) .intuition)

/-- After the edit the file has these references, and it reads as before in everything else. -/
structure OnlyBibliography (refs : List ExternalRef) (before after : PyStr) : Prop where
  references : (parseFrontmatter after).externalRefs = refsJson refs
  fields : { parseFrontmatter after with externalRefs := .arr [] } =
    { parseFrontmatter before with externalRefs := .arr [] }
  author : authorOf after = authorOf before
  statement : statementOf after = statementOf before
  proof : proofOf after = proofOf before
  intuition : intuitionOf after = intuitionOf before
  integrity : ∀ revoked factId, validateFactIntegrity revoked factId after (parseFrontmatter after) =
    validateFactIntegrity revoked factId before (parseFrontmatter before)

/-- What a line of the frontmatter says of the references. -/
def refsValue (line : PyStr) : Option Json :=
  if startsWith "external_refs:".toList (strip line) then
    some ((Json.parse (strip ((strip line).drop "external_refs:".length))).getD (.arr []))
  else none

/-- The lines before the first one that starts with `external_refs:`, and those after it. -/
def splitRefs : List PyStr → List PyStr × List PyStr
  | [] => ([], [])
  | line :: lines =>
    if startsWith "external_refs:".toList line then ([], lines)
    else (line :: (splitRefs lines).1, (splitRefs lines).2)

/-- What the last of these lines that is about the references says. -/
def lastRefs (lines : List PyStr) : Option Json := (lines.filterMap refsValue).getLast?

end Readers

section Parser
variable {fm : Frontmatter} {v w : Json} {line : PyStr} {b : Bool} {lines : List PyStr}

theorem strip_head_of_startsWith {c : Char} {cs : PyStr} (hc : isSpace c = false)
    (h : startsWith (c :: cs) line = true) : ∃ t, strip line = c :: t := by
  obtain ⟨u, rfl⟩ := List.isPrefixOf_iff_prefix.mp h
  exact strip_cons hc _

variable [Runtime]

theorem parseLine_value (st : Frontmatter × Bool) (h : refsValue line = some v) :
    parseLine st line = ({ st.1 with externalRefs := v }, false) := by
  rw [refsValue] at h
  split_ifs at h with hname
  have hhead : ∃ t, strip line = 'e' :: t := by
    obtain ⟨u, hu⟩ := List.isPrefixOf_iff_prefix.mp hname
    exact ⟨_, hu.symm⟩
  obtain ⟨t, ht⟩ := hhead
  have hkey {c : Char} {cs : PyStr} (hc : isSpace c = false) (hne : c ≠ 'e') :
      startsWith (c :: cs) line = false := by
    by_contra hs
    obtain ⟨u, hu⟩ := strip_head_of_startsWith hc (Bool.eq_true_of_not_eq_false hs)
    rw [ht] at hu
    exact hne (List.cons.inj hu).1.symm
  have h1 : startsWith "fact_id:".toList line = false := hkey (by decide) (by decide)
  have h2 : startsWith "problem_id:".toList line = false := hkey (by decide) (by decide)
  have h3 : startsWith "glossary_introduces:".toList (strip line) = false := by
    rw [ht]
    rfl
  have hnone : predecessorsOf (strip line) = none := by
    rw [ht]
    rfl
  simp only [parseLine, h1, h2, h3, hname, hnone, Bool.false_eq_true, if_false, if_true]
  rw [Option.some.inj h]

theorem parseLine_plain (h : refsValue line = none) :
    (parseLine (fm, b) line).1.externalRefs = fm.externalRefs ∧
      parseLine ({ fm with externalRefs := v }, b) line =
        ({ (parseLine (fm, b) line).1 with externalRefs := v }, (parseLine (fm, b) line).2) := by
  rw [refsValue] at h
  split_ifs at h with hname
  rw [Bool.not_eq_true] at hname
  unfold parseLine
  simp only [hname, Bool.false_eq_true, if_false]
  split_ifs
  · exact ⟨rfl, rfl⟩
  · exact ⟨rfl, rfl⟩
  all_goals
    split
    · exact ⟨rfl, rfl⟩
  · split <;> exact ⟨rfl, rfl⟩
  · split <;> exact ⟨rfl, rfl⟩
  · exact ⟨rfl, rfl⟩
  · split <;> exact ⟨rfl, rfl⟩
  · exact ⟨rfl, rfl⟩

/-- The references that a parse ends with. -/
theorem foldl_refs (lines : List PyStr) (st : Frontmatter × Bool) :
    (lines.foldl parseLine st).1.externalRefs = (lastRefs lines).getD st.1.externalRefs := by
  induction lines generalizing st with
  | nil => rfl
  | cons line lines ih =>
    obtain ⟨fm, b⟩ := st
    rw [List.foldl_cons, ih]
    cases hv : refsValue line with
    | none =>
      rw [(parseLine_plain (v := .null) hv).1]
      simp only [lastRefs, List.filterMap_cons, hv]
    | some v =>
      rw [parseLine_value _ hv]
      simp only [lastRefs, List.filterMap_cons, hv, List.getLast?_cons]
      cases (lines.filterMap refsValue).getLast? <;> rfl

/-- All else that a parse ends with does not depend on the references that it starts with. -/
theorem foldl_others (lines : List PyStr) (fm : Frontmatter) (v : Json) (b : Bool) :
    ∃ w, lines.foldl parseLine ({ fm with externalRefs := v }, b) =
      ({ (lines.foldl parseLine (fm, b)).1 with externalRefs := w }, (lines.foldl parseLine (fm, b)).2) := by
  induction lines generalizing fm v b with
  | nil => exact ⟨v, rfl⟩
  | cons line lines ih =>
    rw [List.foldl_cons, List.foldl_cons]
    cases hv : refsValue line with
    | none =>
      rw [(parseLine_plain hv).2]
      exact ih _ v _
    | some w =>
      rw [parseLine_value _ hv, parseLine_value _ hv]
      exact ⟨_, rfl⟩

end Parser

section Lines
variable {refs : List ExternalRef} {l : PyStr}

theorem replaceRefs_eq (newLine : PyStr) (front : List PyStr) :
    replaceRefs newLine front = (splitRefs front).1 ++ newLine :: (splitRefs front).2 := by
  induction front with
  | nil => rfl
  | cons line lines ih =>
    rw [replaceRefs, splitRefs]
    split_ifs
    · rfl
    · rw [ih, List.cons_append]

theorem splitRefs_spec (front : List PyStr) :
    (front = (splitRefs front).1 ∧ (splitRefs front).2 = []) ∨
      ∃ old, startsWith "external_refs:".toList old = true ∧
        front = (splitRefs front).1 ++ old :: (splitRefs front).2 := by
  induction front with
  | nil => exact .inl ⟨rfl, rfl⟩
  | cons line lines ih =>
    rw [splitRefs]
    split_ifs with hs
    · exact .inr ⟨line, hs, rfl⟩
    · rcases ih with ⟨he, hnil⟩ | ⟨old, hold, he⟩
      · exact .inl ⟨congrArg (line :: ·) he, hnil⟩
      · exact .inr ⟨old, hold, congrArg (line :: ·) he⟩

/-- A line that starts with the name, stripped. -/
theorem strip_named (hl : startsWith "external_refs:".toList l = true) :
    startsWith "external_refs:".toList (strip l) = true := by
  obtain ⟨u, rfl⟩ := List.isPrefixOf_iff_prefix.mp hl
  have hlead : lstrip ("external_refs:".toList ++ u) = "external_refs:".toList ++ u := lstrip_cons (by decide)
  have hname : rstrip "external_refs:".toList = "external_refs:".toList := by decide
  rw [strip, hlead, rstrip_append_eq]
  split_ifs
  · rw [hname]
    decide
  · exact List.isPrefixOf_iff_prefix.mpr (List.prefix_append _ _)

theorem named_head (hl : startsWith "external_refs:".toList l = true) : ∃ t, strip l = 'e' :: t := by
  obtain ⟨u, rfl⟩ := List.isPrefixOf_iff_prefix.mp hl
  exact strip_cons (by decide) _

theorem named_ne_mark (hl : startsWith "external_refs:".toList l = true) : strip l ≠ "---".toList := by
  obtain ⟨t, ht⟩ := named_head hl
  rw [ht]
  rintro ⟨⟩

/-- What the edit does to the lines of the file. -/
theorem setExternalRefs_lines {factId file file' : PyStr} (h : setExternalRefs factId refs file = .ok file') :
    ∃ first front rest, splitlines (universalNewlines file) = first :: (front ++ rest) ∧
      (∀ l ∈ front, strip l ≠ "---".toList) ∧ (∃ mark body, rest = mark :: body ∧ strip mark = "---".toList) ∧
      splitlines (universalNewlines file') =
        first :: ((splitRefs front).1 ++ (linesOf (refsLine refs) ++ ((splitRefs front).2 ++ rest))) := by
  rw [setExternalRefs] at h
  cases hlines : splitlines (universalNewlines file) with
  | nil =>
    rw [hlines] at h
    cases h
  | cons first lines =>
    rw [hlines] at h
    dsimp only at h
    rw [List.span_eq_takeWhile_dropWhile] at h
    dsimp only at h
    generalize hfront : lines.takeWhile (fun l => decide (strip l ≠ "---".toList)) = front at h
    generalize hrest : lines.dropWhile (fun l => decide (strip l ≠ "---".toList)) = rest at h
    have hcut : front ++ rest = lines := by
      rw [← hfront, ← hrest]
      exact List.takeWhile_append_dropWhile
    by_cases hnil : rest = []
    · rw [if_pos hnil] at h
      cases h
    rw [if_neg hnil, replaceRefs_eq] at h
    cases h
    have hmark : ∃ mark body, rest = mark :: body ∧ strip mark = "---".toList := by
      obtain ⟨mark, body, hr⟩ := List.exists_cons_of_ne_nil hnil
      refine ⟨mark, body, hr, ?_⟩
      have hhead := List.head?_dropWhile_not (fun l => decide (strip l ≠ "---".toList)) lines
      rw [hrest, hr] at hhead
      simpa using hhead
    have hfrontline : ∀ l ∈ front, strip l ≠ "---".toList := by
      intro l hl
      rw [← hfront] at hl
      simpa using List.mem_takeWhile_imp hl
    refine ⟨first, front, rest, by rw [hcut], hfrontline, hmark, ?_⟩
    have hline : ∀ l ∈ first :: (front ++ rest), IsLine l := by
      intro l hl
      refine splitlines_isLine (s := universalNewlines file) ?_
      rw [hlines, ← hcut]
      exact hl
    have hsub : ∀ l, l ∈ (splitRefs front).1 ∨ l ∈ (splitRefs front).2 → l ∈ front := by
      intro l hl
      rcases splitRefs_spec front with ⟨he, hno⟩ | ⟨old, -, he⟩
      · rw [hno] at hl
        rw [he]
        exact hl.resolve_right List.not_mem_nil
      · rw [he]
        rcases hl with hl | hl
        · exact List.mem_append_left _ hl
        · exact List.mem_append_right _ (List.mem_cons_of_mem _ hl)
    have hbefore : ∀ l ∈ first :: (splitRefs front).1, IsLine l := by
      intro l hl
      refine hline l ?_
      rcases List.mem_cons.mp hl with rfl | hl
      · exact List.mem_cons_self
      · exact List.mem_cons_of_mem _ (List.mem_append_left _ (hsub l (.inl hl)))
    have hafter : ∀ l ∈ (splitRefs front).2 ++ rest, IsLine l := by
      intro l hl
      refine hline l (List.mem_cons_of_mem _ ?_)
      rcases List.mem_append.mp hl with hl | hl
      · exact List.mem_append_left _ (hsub l (.inr hl))
      · exact List.mem_append_right _ hl
    have hparts : first :: ((splitRefs front).1 ++ refsLine refs :: (splitRefs front).2) ++ rest =
        (first :: (splitRefs front).1) ++ ([refsLine refs] ++ ((splitRefs front).2 ++ rest)) := by
      simp
    have hend (parts : List PyStr) (hne : parts ≠ []) :
        joinWith ['\n'] parts ++ ['\n'] = joinWith ['\n'] (parts ++ [[]]) := by
      rw [joinWith_append ['\n'] hne (List.cons_ne_nil [] []), joinWith_singleton, List.append_nil]
    rw [splitlines_universalNewlines, hparts, hend _ (List.append_ne_nil_of_left_ne_nil (List.cons_ne_nil _ _) _),
      splitlines_join, List.flatMap_append, List.flatMap_append, flatMap_linesOf hbefore, flatMap_linesOf hafter,
      List.flatMap_singleton, List.cons_append]
    intro p hp
    rcases List.mem_append.mp hp with hp | hp
    · exact unbroken_line (hbefore p hp)
    · rcases List.mem_append.mp hp with hp | hp
      · rw [List.mem_singleton.mp hp]
        exact unbroken_refsLine refs
      · exact unbroken_line (hafter p hp)

end Lines

section Pieces
variable {refs : List ExternalRef} {l : PyStr} {v : Json}

theorem refsValue_named (hl : startsWith "external_refs:".toList l = true) : ∃ v, refsValue l = some v :=
  ⟨_, if_pos (strip_named hl)⟩

/-- A text is what is stripped of it, between spaces. -/
theorem strip_parts (s : PyStr) : ∃ ws ws', s = ws ++ (strip s ++ ws') ∧ (∀ c ∈ ws, isSpace c = true) ∧
    ∀ c ∈ ws', isSpace c = true := by
  have h := List.takeWhile_append_dropWhile (p := isSpace) (l := (lstrip s).reverse)
  have hrev := congrArg List.reverse h
  rw [List.reverse_append, List.reverse_reverse] at hrev
  refine ⟨s.takeWhile isSpace, ((lstrip s).reverse.takeWhile isSpace).reverse, ?_,
    fun c hc => List.mem_takeWhile_imp hc, fun c hc => List.mem_takeWhile_imp (List.mem_reverse.mp hc)⟩
  have hstrip : strip s ++ ((lstrip s).reverse.takeWhile isSpace).reverse = lstrip s := hrev
  rw [hstrip]
  exact (List.takeWhile_append_dropWhile).symm

theorem neutral_of_space {ws : PyStr} (h : ∀ c ∈ ws, isSpace c = true) : Json.Neutral ws := by
  intro c hc
  have hne (d : Char) (hd : isSpace d = false) : c ≠ d := by
    rintro rfl
    rw [h c hc] at hd
    cases hd
  have hnat (d : Char) (hd : isSpace d = false) : c.toNat ≠ d.toNat := fun he => hne d hd (Char.toNat_inj.mp he)
  simp only [Json.Place.isNeutral, Bool.and_eq_true, bne_iff_ne, ne_eq]
  exact ⟨⟨⟨⟨⟨hnat '"' (by decide), hnat '\\' (by decide)⟩, hnat '[' (by decide)⟩, hnat '\x7b' (by decide)⟩,
    hnat ']' (by decide)⟩, hnat '\x7d' (by decide)⟩

/-- The JSON text on a line about the references, and what stands around it. -/
theorem refsValue_parts (h : refsValue l = some v) : ∃ x t y, l = x ++ (t ++ y) ∧
    (∀ c ∈ x, c ≠ '"' ∧ c ≠ '\\') ∧ Json.Neutral x ∧ Json.Neutral y ∧ v = (Json.parse t).getD (.arr []) := by
  rw [refsValue] at h
  split_ifs at h with hname
  obtain ⟨u, hu⟩ := List.isPrefixOf_iff_prefix.mp hname
  have hdrop : (strip l).drop "external_refs:".length = u := by
    rw [← hu]
    exact List.drop_left
  obtain ⟨ws, ws', hl, hws, hws'⟩ := strip_parts l
  obtain ⟨vs, vs', hv, hvs, hvs'⟩ := strip_parts u
  have hplain : ∀ c ∈ "external_refs:".toList, c ≠ '"' ∧ c ≠ '\\' := by decide
  have hneutral : Json.Neutral "external_refs:".toList := by decide
  have happ {a b : PyStr} (ha : Json.Neutral a) (hb : Json.Neutral b) : Json.Neutral (a ++ b) := by
    intro c hc
    rcases List.mem_append.mp hc with hc | hc
    · exact ha c hc
    · exact hb c hc
  refine ⟨ws ++ ("external_refs:".toList ++ vs), strip u, vs' ++ ws', ?_, ?_,
    happ (neutral_of_space hws) (happ hneutral (neutral_of_space hvs)),
    happ (neutral_of_space hvs') (neutral_of_space hws'), ?_⟩
  · nth_rewrite 1 [hl]
    rw [← hu]
    nth_rewrite 1 [hv]
    simp only [List.append_assoc]
  · intro c hc
    rcases List.mem_append.mp hc with hc | hc
    · exact Json.noQuote_of_isSpace (hws c hc)
    · rcases List.mem_append.mp hc with hc | hc
      · exact hplain c hc
      · exact Json.noQuote_of_isSpace (hvs c hc)
  · rw [← Option.some.inj h, hdrop]

/-- The references as JSON text. -/
def refsText (refs : List ExternalRef) : PyStr := (refsJson refs).dumps (Json.spaced false false)

theorem distinctKeys_refsJson (refs : List ExternalRef) : (refsJson refs).distinctKeys = true := by
  have hitems : ∀ refs : List ExternalRef, Json.distinctItems (refs.map fun r => .obj r.items) = true := by
    intro refs
    induction refs with
    | nil => rfl
    | cons r refs ih => rw [List.map_cons, Json.distinctItems, r.distinct, ih, Bool.true_and]
  rw [refsJson, Json.distinctKeys, hitems]

/-- The line that is written, on its own, says what it was written for. -/
theorem refsValue_refsLine (refs : List ExternalRef) : refsValue (refsLine refs) = some (refsJson refs) := by
  obtain ⟨t, ht⟩ := dumps_arr (Json.spaced false false) (refs.map fun r => .obj r.items)
  have htext : (refsJson refs).dumps (Json.spaced false false) = '[' :: t ++ [']'] := ht
  have hparse : Json.parse ((refsJson refs).dumps (Json.spaced false false)) = some (refsJson refs) := by
    have h := Json.parse_dumps false (distinctKeys_refsJson refs)
      (List.forall_mem_nil fun c => Json.isJsonSpace c = true)
    rwa [List.append_nil] at h
  unfold refsLine
  generalize (refsJson refs).dumps (Json.spaced false false) = text at htext hparse ⊢
  have hs : strip ("external_refs: ".toList ++ text) = "external_refs: ".toList ++ text := by
    rw [htext]
    exact strip_line (c := 'e') (d := ']') (by decide) (by decide) ("xternal_refs: ".toList ++ '[' :: t)
  have hpayload : strip (("external_refs: ".toList ++ text).drop "external_refs:".length) = text := by
    have hlead : strip (' ' :: text) = text := by
      rw [strip_cons_space (by decide), htext]
      exact strip_line (c := '[') (d := ']') (by decide) (by decide) _
    exact hlead
  simp only [refsValue, hs, (refsName_head text).1, hpayload, hparse, if_true, Option.getD_some]

theorem printable_refsText (refs : List ExternalRef) : Json.Printable (refsText refs) :=
  Json.printable_dumps (by decide) (by decide) _

theorem isLine_refsName : IsLine "external_refs: ".toList := isLine_of_plain (by decide)

/-- The line is one line where no string in the references has a line break that is written as it is. -/
theorem linesOf_refsLine (h : (refsJson refs).OneLine) : linesOf (refsLine refs) = [refsLine refs] := by
  refine linesOf_line fun c hc => ?_
  rcases List.mem_append.mp hc with hc | hc
  · exact isLine_refsName c hc
  · by_contra hb
    have hraw := isRawBreak_of_printable (Bool.eq_true_of_not_eq_false hb) (printable_refsText refs c hc)
    obtain ⟨s, hs, hm⟩ := ((Json.veils_dumps (refsJson refs)).mem c hraw).mp hc
    rw [h s hs c hm] at hraw
    cases hraw

/-- Otherwise it breaks, for the first time within a string. -/
theorem refsText_breaks (h : ¬ (refsJson refs).OneLine) : ∃ a c b, refsText refs = a ++ c :: b ∧
    isRawBreak c = true ∧ IsLine a ∧ linesOf (refsLine refs) = ("external_refs: ".toList ++ a) :: splitlines b := by
  have hexists : ∃ c ∈ refsText refs, isLineBreak c = true := by
    by_contra hnone
    refine h fun s hs c hc => ?_
    by_contra hraw
    rw [Bool.not_eq_false] at hraw
    have hm := ((Json.veils_dumps (refsJson refs)).mem c hraw).mpr ⟨s, hs, hc⟩
    rw [isRawBreak, Bool.and_eq_true] at hraw
    exact hnone ⟨c, hm, hraw.1⟩
  have hsplit : ∀ s : PyStr, (∃ c ∈ s, isLineBreak c = true) → ∃ a c b, s = a ++ c :: b ∧ isLineBreak c = true ∧
      IsLine a := by
    intro s
    induction s with
    | nil =>
      rintro ⟨c, hc, -⟩
      cases hc
    | cons d s ih =>
      rintro ⟨c, hc, hb⟩
      cases hd : isLineBreak d with
      | true => exact ⟨[], d, s, rfl, hd, fun e he => absurd he List.not_mem_nil⟩
      | false =>
        have hcs : c ∈ s := by
          rcases List.mem_cons.mp hc with rfl | hc
          · rw [hd] at hb
            cases hb
          · exact hc
        obtain ⟨a, e, b, rfl, he, ha⟩ := ih ⟨c, hcs, hb⟩
        refine ⟨d :: a, e, b, rfl, he, fun x hx => ?_⟩
        rcases List.mem_cons.mp hx with rfl | hx
        · exact hd
        · exact ha x hx
  obtain ⟨a, c, b, he, hc, ha⟩ := hsplit _ hexists
  have hraw : isRawBreak c = true := isRawBreak_of_printable hc (printable_refsText refs c (by simp [he]))
  have hcr : c ≠ '\r' := by
    rintro rfl
    revert hraw
    decide
  refine ⟨a, c, b, he, hraw, ha, ?_⟩
  have hfront : IsLine ("external_refs: ".toList ++ a) := isLine_refsName.append ha
  have hne : refsLine refs ≠ [] := by
    intro hnil
    have hn := (List.append_eq_nil_iff.mp hnil).1
    revert hn
    decide
  have hline : refsLine refs = ("external_refs: ".toList ++ a) ++ c :: b := by
    rw [List.append_assoc, ← he]
    rfl
  rw [linesOf, if_neg hne, hline, splitlines, splitlinesFrom_prefix hfront, List.append_nil,
    splitlinesFrom_break hc (fun h => absurd h hcr), List.reverse_reverse]

/-- No piece of a broken line says what the references are. -/
theorem piece_refsValue (h : ¬ (refsJson refs).OneLine) (hl : l ∈ linesOf (refsLine refs))
    (hv : refsValue l = some v) : v ≠ refsJson refs := by
  rintro rfl
  obtain ⟨x, t, y, hparts, hplain, hx, hy, hval⟩ := refsValue_parts hv
  obtain ⟨a, c, b, he, hc, ha, hlines⟩ := refsText_breaks h
  have hveils : Json.Veils (refsText refs) (refsJson refs).strings := Json.veils_dumps _
  cases hp : Json.parse t with
  | none =>
    rw [hp] at hval
    refine h ?_
    rw [hval]
    intro s hs
    cases hs
  | some w =>
    rw [hp, Option.getD_some] at hval
    rw [hlines] at hl
    rcases List.mem_cons.mp hl with hl | hl
    · -- the first piece ends within a string, and a JSON text does not
      have hhidden : ((Json.Place.out 0).past a).Hidden := hveils.hidden 0 he hc
      have hname : Json.Neutral "external_refs: ".toList := by decide
      have hpast : (Json.Place.out 0).past ("external_refs: ".toList ++ a) = Json.Place.out 0 := by
        rw [← hl, hparts, Json.Place.past_append, hx.past, Json.Place.past_append, Json.loads_settles hp, hy.past]
      rw [Json.Place.past_append, hname.past] at hpast
      rw [hpast] at hhidden
      exact hhidden
    · -- any other one starts within a string
      obtain ⟨hline, a', b', hb, ha'⟩ := splitlinesFrom_pieces (by simp) hl
      rw [List.reverse_nil, List.nil_append] at hb
      have hstart : ∃ front d, refsText refs = front ++ d :: (l ++ b') ∧ isRawBreak d = true := by
        rcases ha' with rfl | ⟨a'', d, rfl, hd⟩
        · exact ⟨a, c, by rw [he, hb, List.nil_append], hc⟩
        · have htext : refsText refs = (a ++ c :: a'') ++ d :: (l ++ b') := by
            rw [he, hb]
            simp
          exact ⟨_, d, htext, isRawBreak_of_printable hd (printable_refsText refs d (by simp [htext]))⟩
      obtain ⟨front, d, htext, hd⟩ := hstart
      have hpiece : refsText refs = front ++ d :: (x ++ (t ++ (y ++ b'))) := by
        rw [htext, hparts]
        simp only [List.append_assoc]
      rw [hpiece] at hveils
      have hstrings := Json.piece_strings hveils hd hplain hp
      refine h fun s hs e hes => ?_
      have hmem : e ∈ l := by
        rw [hparts]
        rw [hval] at hs
        exact List.mem_append_right _ (List.mem_append_left _ (hstrings s hs hes))
      rw [isRawBreak, hline e hmem, Bool.false_and]

end Pieces

section Reading
variable {refs : List ExternalRef} {front rest before after : List PyStr} {first l mark : PyStr} {body : List PyStr}

/-- The frontmatter and what follows it, where they are cut. -/
theorem frontLines_cut (first : PyStr) (hf : ∀ l ∈ front, strip l ≠ "---".toList) (hr : rest = mark :: body)
    (hm : strip mark = "---".toList) :
    frontLines (first :: (front ++ rest)) = front ∧ restLines (first :: (front ++ rest)) = rest := by
  have hall : ∀ l ∈ front, decide (strip l ≠ "---".toList) = true := fun l hl => decide_eq_true (hf l hl)
  have hstop : decide (strip mark ≠ "---".toList) = false := decide_eq_false (not_not_intro hm)
  constructor
  · rw [frontLines, List.drop_one, List.tail_cons, List.takeWhile_append_of_pos hall, hr,
      List.takeWhile_cons_of_neg (by rw [hstop]; decide), List.append_nil]
  · rw [restLines, List.drop_one, List.tail_cons, List.dropWhile_append_of_pos hall, hr,
      List.dropWhile_cons_of_neg (by rw [hstop]; decide)]

theorem frontmatterOf_cons (first : PyStr) (lines : List PyStr) :
    frontmatterOf (first :: lines) = first :: frontLines (first :: lines) := rfl

theorem mem_splitRefs (h : l ∈ (splitRefs front).1 ∨ l ∈ (splitRefs front).2) : l ∈ front := by
  rcases splitRefs_spec front with ⟨he, hno⟩ | ⟨old, -, he⟩
  · rw [hno] at h
    rw [he]
    exact h.resolve_right List.not_mem_nil
  · rw [he]
    rcases h with h | h
    · exact List.mem_append_left _ h
    · exact List.mem_append_right _ (List.mem_cons_of_mem _ h)

theorem startsWith_refsLine (refs : List ExternalRef) :
    startsWith "external_refs:".toList (refsLine refs) = true := (refsName_head _).1

/-- A line of another key does not change what the dashboard reads of the author. -/
theorem author_skip (hl : startsWith "external_refs:".toList l = true) (before after : List PyStr) :
    (Observability.frontmatter (before ++ l :: after)).lookup "author".toList =
      (Observability.frontmatter (before ++ after)).lookup "author".toList := by
  have hkey : ∃ value, Observability.readLine l = some ("external_refs".toList, value) := by
    obtain ⟨u, rfl⟩ := List.isPrefixOf_iff_prefix.mp hl
    have hcolon : ':' ∈ "external_refs:".toList ++ u := List.mem_append_left _ (by decide)
    rw [Observability.readLine, if_pos hcolon]
    exact ⟨_, rfl⟩
  obtain ⟨value, hkey⟩ := hkey
  have hne : ("author".toList == "external_refs".toList) = false := by decide
  rw [Observability.frontmatter, Observability.frontmatter, List.filterMap_append, List.filterMap_append,
    List.filterMap_cons, hkey]
  simp only [List.reverse_append, List.reverse_cons, List.append_assoc, List.lookup_append, List.singleton_append,
    List.lookup_cons, hne]

theorem intuitionFlag_pos (lines : List PyStr) (i j : Nat) :
    intuitionFlag (i + 1) lines = intuitionFlag (j + 1) lines := by
  induction lines generalizing i j with
  | nil => rfl
  | cons l lines ih =>
    rw [intuitionFlag, intuitionFlag, ih (i + 1) (j + 1)]
    simp only [Nat.zero_lt_succ, true_and]

theorem intuitionFlag_skip (hl : startsWith "external_refs:".toList l = true) (before after : List PyStr) (i : Nat)
    (hi : 0 < i) : intuitionFlag i (before ++ l :: after) = intuitionFlag i (before ++ after) := by
  induction before generalizing i with
  | nil =>
    have hflag : startsWith "has_intuition:".toList l = false := by
      obtain ⟨u, rfl⟩ := List.isPrefixOf_iff_prefix.mp hl
      rfl
    obtain ⟨j, rfl⟩ : ∃ j, i = j + 1 := ⟨i - 1, by omega⟩
    rw [List.nil_append, List.nil_append, intuitionFlag, if_neg fun h => named_ne_mark hl h.2, hflag,
      if_neg (by decide)]
    exact intuitionFlag_pos after (j + 1) j
  | cons k before ih =>
    rw [List.cons_append, List.cons_append, intuitionFlag, intuitionFlag, ih (i + 1) (Nat.succ_pos i)]

theorem heading_named (hl : startsWith "external_refs:".toList l = true) {title : PyStr}
    (ht : title.head? = some '#') : heading l ≠ title := by
  obtain ⟨u, rfl⟩ := List.isPrefixOf_iff_prefix.mp hl
  refine heading_ne (by decide) ?_
  rw [ht]
  decide

/-- Where no heading stands before it, the line is in no section. -/
theorem afterHeading_named (before : List PyStr) (hl : startsWith "external_refs:".toList l = true) {title : PyStr}
    (ht : title.head? = some '#') (hb : ∀ l ∈ before, heading l ≠ title) :
    afterHeading title (before ++ l :: after) = afterHeading title (before ++ after) := by
  have hcut : before ++ l :: after = (before ++ [l]) ++ after := by simp
  rw [hcut, afterHeading_skip, afterHeading_skip hb]
  intro k hk
  rcases List.mem_append.mp hk with hk | hk
  · exact hb k hk
  · rw [List.mem_singleton.mp hk]
    exact heading_named hl ht

theorem lastRefs_append (ls ms : List PyStr) : lastRefs (ls ++ ms) = (lastRefs ms).or (lastRefs ls) := by
  rw [lastRefs, lastRefs, lastRefs, List.filterMap_append, List.getLast?_append]

variable [Runtime] {raw raw' : PyStr}

/-- No section begins in front of the line. -/
def Unheaded (lines : List PyStr) : Prop :=
  ∀ l ∈ lines.take 1 ++ (splitRefs (frontLines lines)).1,
    heading l ≠ "## statement".toList ∧ heading l ≠ "## proof".toList

/-- All that two files read the same but for one such line, or for none in the first of them. -/
theorem reads_same (old : List PyStr) (hraw : splitlines raw = first :: (before ++ (old ++ (after ++ rest))))
    (hraw' : splitlines raw' = first :: (before ++ (l :: (after ++ rest))))
    (hold : old = [] ∨ ∃ k, startsWith "external_refs:".toList k = true ∧ old = [k])
    (hl : startsWith "external_refs:".toList l = true)
    (hf : ∀ k ∈ before ++ after, strip k ≠ "---".toList) (hr : rest = mark :: body)
    (hm : strip mark = "---".toList)
    (hhead : ∀ k ∈ first :: before, heading k ≠ "## statement".toList ∧ heading k ≠ "## proof".toList) :
    authorOf raw' = authorOf raw ∧ statementOf raw' = statementOf raw ∧ proofOf raw' = proofOf raw ∧
      intuitionOf raw' = intuitionOf raw := by
  -- both files, without the line
  have hskip : ∀ (text : PyStr) (k : PyStr), splitlines text = first :: (before ++ (k :: (after ++ rest))) →
      startsWith "external_refs:".toList k = true →
      authorOf text = (Observability.frontmatter (first :: (before ++ after))).lookup "author".toList ∧
        afterHeading "## statement".toList (splitlines text) =
          afterHeading "## statement".toList (first :: (before ++ (after ++ rest))) ∧
        afterHeading "## proof".toList (splitlines text) =
          afterHeading "## proof".toList (first :: (before ++ (after ++ rest))) ∧
        intuitionFlag 0 (splitlines text) = intuitionFlag 0 (first :: (before ++ (after ++ rest))) ∧
        restLines (splitlines text) = rest := by
    intro text k htext hk
    have hcut : first :: (before ++ (k :: (after ++ rest))) = first :: ((before ++ k :: after) ++ rest) := by simp
    have hfront : ∀ j ∈ before ++ k :: after, strip j ≠ "---".toList := by
      intro j hj
      rcases List.mem_append.mp hj with hj | hj
      · exact hf j (List.mem_append_left _ hj)
      · rcases List.mem_cons.mp hj with rfl | hj
        · exact named_ne_mark hk
        · exact hf j (List.mem_append_right _ hj)
    obtain ⟨hfl, hrl⟩ := frontLines_cut first hfront hr hm
    refine ⟨?_, ?_, ?_, ?_, ?_⟩
    · rw [authorOf, htext, hcut, frontmatterOf_cons, hfl]
      exact author_skip hk (first :: before) after
    · rw [htext]
      exact afterHeading_named (first :: before) hk rfl fun j hj => (hhead j hj).1
    · rw [htext]
      exact afterHeading_named (first :: before) hk rfl fun j hj => (hhead j hj).2
    · rw [htext, intuitionFlag, intuitionFlag, intuitionFlag_skip hk _ _ 1 (by decide)]
    · rw [htext, hcut, hrl]
  have hnone : splitlines raw = first :: (before ++ (after ++ rest)) →
      authorOf raw = (Observability.frontmatter (first :: (before ++ after))).lookup "author".toList ∧
        restLines (splitlines raw) = rest := by
    intro htext
    obtain ⟨hfl, hrl⟩ := frontLines_cut first hf hr hm
    rw [List.append_assoc] at hfl hrl
    exact ⟨by rw [authorOf, htext, frontmatterOf_cons, hfl], by rw [htext, hrl]⟩
  obtain ⟨ha', hs', hp', hi', hb'⟩ := hskip raw' l hraw' hl
  have hplain : authorOf raw = (Observability.frontmatter (first :: (before ++ after))).lookup "author".toList ∧
      afterHeading "## statement".toList (splitlines raw) =
        afterHeading "## statement".toList (first :: (before ++ (after ++ rest))) ∧
      afterHeading "## proof".toList (splitlines raw) =
        afterHeading "## proof".toList (first :: (before ++ (after ++ rest))) ∧
      intuitionFlag 0 (splitlines raw) = intuitionFlag 0 (first :: (before ++ (after ++ rest))) ∧
      restLines (splitlines raw) = rest := by
    rcases hold with rfl | ⟨k, hk, rfl⟩
    · rw [List.nil_append] at hraw
      obtain ⟨ha, hb⟩ := hnone hraw
      exact ⟨ha, by rw [hraw], by rw [hraw], by rw [hraw], hb⟩
    · exact hskip raw k hraw hk
  obtain ⟨ha, hs, hp, hi, hb⟩ := hplain
  refine ⟨ha'.trans ha.symm, ?_, ?_, ?_⟩
  · rw [statementOf, statementOf, hs', hs]
  · simp only [proofOf, hp', hp, hi', hi]
  · rw [intuitionOf, intuitionOf, hb', hb]

/-- What the last line says that is about the references and stands after the one that is replaced. -/
def laterRefs (text : PyStr) : Option Json := lastRefs (splitRefs (frontLines (splitlines text))).2

variable {factId file file' : PyStr}

/-- One line instead of one line, or one more line at the end: the parser reads the rest as before. -/
theorem parse_oneLine (h : setExternalRefs factId refs file = .ok file') (hone : (refsJson refs).OneLine) :
    (parseFrontmatter (universalNewlines file')).externalRefs =
        (laterRefs (universalNewlines file)).getD (refsJson refs) ∧
      { parseFrontmatter (universalNewlines file') with externalRefs := .arr [] } =
        { parseFrontmatter (universalNewlines file) with externalRefs := .arr [] } := by
  obtain ⟨first, front, rest, hlines, hf, ⟨mark, body, hr, hm⟩, hlines'⟩ := setExternalRefs_lines h
  obtain ⟨hfl, -⟩ := frontLines_cut first hf hr hm
  rw [linesOf_refsLine hone, List.singleton_append] at hlines'
  have hcut : first :: ((splitRefs front).1 ++ refsLine refs :: ((splitRefs front).2 ++ rest)) =
      first :: (((splitRefs front).1 ++ refsLine refs :: (splitRefs front).2) ++ rest) := by simp
  have hf' : ∀ l ∈ (splitRefs front).1 ++ refsLine refs :: (splitRefs front).2, strip l ≠ "---".toList := by
    intro l hl
    rcases List.mem_append.mp hl with hl | hl
    · exact hf l (mem_splitRefs (.inl hl))
    · rcases List.mem_cons.mp hl with rfl | hl
      · exact named_ne_mark (startsWith_refsLine refs)
      · exact hf l (mem_splitRefs (.inr hl))
  obtain ⟨hfl', -⟩ := frontLines_cut first hf' hr hm
  rw [hcut] at hlines'
  rw [laterRefs, parseFrontmatter, parseFrontmatter, hlines, hlines', frontmatterOf_cons, frontmatterOf_cons, hfl,
    hfl', List.foldl_cons, List.foldl_cons, List.foldl_append, List.foldl_cons,
    parseLine_value _ (refsValue_refsLine refs)]
  generalize parseLine ({}, false) first = start
  refine ⟨foldl_refs _ _, ?_⟩
  obtain ⟨w', hw'⟩ := foldl_others (splitRefs front).2 ((splitRefs front).1.foldl parseLine start).1 (refsJson refs)
    false
  rw [hw']
  rcases splitRefs_spec front with ⟨he, hno⟩ | ⟨old, hold, he⟩
  · rw [hno, List.foldl_nil, ← he]
  · obtain ⟨v, hv⟩ := refsValue_named hold
    obtain ⟨w, hw⟩ := foldl_others (splitRefs front).2 ((splitRefs front).1.foldl parseLine start).1 v false
    have hfront : front.foldl parseLine start =
        ((splitRefs front).1 ++ old :: (splitRefs front).2).foldl parseLine start := by rw [← he]
    rw [hfront, List.foldl_append, List.foldl_cons, parseLine_value _ hv, hw]

/-- An edit that writes one line, in front of which no section begins and after which no line says otherwise. -/
theorem onlyBibliography_of (h : setExternalRefs factId refs file = .ok file') (hone : (refsJson refs).OneLine)
    (hhead : Unheaded (splitlines (universalNewlines file)))
    (hlater : ∀ v, laterRefs (universalNewlines file) = some v → v = refsJson refs) :
    OnlyBibliography refs (universalNewlines file) (universalNewlines file') := by
  obtain ⟨hrefs, hfields⟩ := parse_oneLine h hone
  have hreads : authorOf (universalNewlines file') = authorOf (universalNewlines file) ∧
      statementOf (universalNewlines file') = statementOf (universalNewlines file) ∧
      proofOf (universalNewlines file') = proofOf (universalNewlines file) ∧
      intuitionOf (universalNewlines file') = intuitionOf (universalNewlines file) := by
    obtain ⟨first, front, rest, hlines, hf, ⟨mark, body, hr, hm⟩, hlines'⟩ := setExternalRefs_lines h
    obtain ⟨hfl, -⟩ := frontLines_cut first hf hr hm
    rw [hlines, Unheaded, hfl] at hhead
    rw [linesOf_refsLine hone, List.singleton_append] at hlines'
    rcases splitRefs_spec front with ⟨he, hno⟩ | ⟨old, hold, he⟩
    · refine reads_same [] ?_ hlines' (.inl rfl) (startsWith_refsLine refs) ?_ hr hm hhead
      · rw [hlines, hno, List.nil_append, List.nil_append, ← he]
      · rw [hno, List.append_nil, ← he]
        exact hf
    · refine reads_same [old] ?_ hlines' (.inr ⟨old, hold, rfl⟩) (startsWith_refsLine refs) ?_ hr hm hhead
      · rw [hlines]
        nth_rewrite 1 [he]
        simp only [List.append_assoc, List.cons_append, List.nil_append]
      · intro l hl
        exact hf l (mem_splitRefs (List.mem_append.mp hl))
  obtain ⟨hauthor, hstatement, hproof, hintuition⟩ := hreads
  refine ⟨?_, hfields, hauthor, hstatement, hproof, hintuition, ?_⟩
  · rw [hrefs]
    cases hl : laterRefs (universalNewlines file) with
    | none => rfl
    | some v => exact hlater v hl
  · intro revoked id
    have hid := congrArg Frontmatter.factId hfields
    have hproblem := congrArg Frontmatter.problemId hfields
    have hpreds := congrArg Frontmatter.predecessors hfields
    have hglossary := congrArg Frontmatter.glossaryIntroduces hfields
    have hidentity := congrArg Frontmatter.factIdentity hfields
    simp only at hid hproblem hpreds hglossary hidentity
    simp only [validateFactIntegrity, hid, hproblem, hpreds, hglossary, hidentity, hstatement, hproof]

/-- What the references are read from, where the line that was written is several. -/
theorem references_broken (h : setExternalRefs factId refs file = .ok file') (hone : ¬ (refsJson refs).OneLine)
    (hlater : laterRefs (universalNewlines file) = none) :
    (parseFrontmatter (universalNewlines file')).externalRefs ≠ refsJson refs := by
  obtain ⟨first, front, rest, hlines, hf, ⟨mark, body, hr, hm⟩, hlines'⟩ := setExternalRefs_lines h
  obtain ⟨hfl, -⟩ := frontLines_cut first hf hr hm
  rw [laterRefs, hlines, hfl] at hlater
  obtain ⟨a, c, b, -, -, -, hpieces⟩ := refsText_breaks hone
  have hpiece : ∀ l ∈ linesOf (refsLine refs), ∀ v, refsValue l = some v → v ≠ refsJson refs :=
    fun l hl v hv => piece_refsValue hone hl hv
  rw [hpieces] at hpiece hlines'
  have hname := refsName_head a
  generalize "external_refs: ".toList ++ a = p at hpiece hlines' hname
  generalize splitlines b = ps at hpiece hlines'
  have hbefore : ∀ l ∈ (splitRefs front).1, decide (strip l ≠ "---".toList) = true :=
    fun l hl => decide_eq_true (hf l (mem_splitRefs (.inl hl)))
  have hafter : ∀ l ∈ (splitRefs front).2, decide (strip l ≠ "---".toList) = true :=
    fun l hl => decide_eq_true (hf l (mem_splitRefs (.inr hl)))
  -- the frontmatter of the new file ends within the pieces, or where it did
  have hcut : ∃ qs tl, frontLines (splitlines (universalNewlines file')) = (splitRefs front).1 ++ (p :: qs ++ tl) ∧
      (∀ l ∈ qs, l ∈ ps) ∧ lastRefs tl = none := by
    have hstop : decide (strip mark ≠ "---".toList) = false := decide_eq_false (not_not_intro hm)
    rw [hlines', frontLines, List.drop_one, List.tail_cons, List.takeWhile_append_of_pos hbefore, List.cons_append,
      List.takeWhile_cons_of_pos (by exact decide_eq_true hname.2), List.takeWhile_append]
    split_ifs
    · refine ⟨ps, (splitRefs front).2, ?_, fun l hl => hl, hlater⟩
      rw [List.takeWhile_append_of_pos hafter, hr, List.takeWhile_cons_of_neg (by rw [hstop]; decide),
        List.append_nil, List.cons_append]
    · refine ⟨ps.takeWhile fun l => decide (strip l ≠ "---".toList), [], ?_,
        fun l hl => (List.takeWhile_sublist _).mem hl, rfl⟩
      rw [List.append_nil]
  obtain ⟨qs, tl, hfront, hqs, htl⟩ := hcut
  obtain ⟨v, hv⟩ := refsValue_named hname.1
  have hlast : ∃ w, lastRefs (p :: qs) = some w ∧ ∃ l ∈ p :: qs, refsValue l = some w := by
    rw [lastRefs, List.filterMap_cons, hv]
    refine ⟨_, List.getLast?_eq_some_getLast (List.cons_ne_nil _ _), ?_⟩
    have hmem := List.getLast_mem (List.cons_ne_nil v (qs.filterMap refsValue))
    generalize (v :: qs.filterMap refsValue).getLast (List.cons_ne_nil _ _) = w at hmem
    rcases List.mem_cons.mp hmem with rfl | hmem
    · exact ⟨p, List.mem_cons_self, hv⟩
    · obtain ⟨l, hl, hw⟩ := List.mem_filterMap.mp hmem
      exact ⟨l, List.mem_cons_of_mem _ hl, hw⟩
  obtain ⟨w, hw, l, hl, hlw⟩ := hlast
  have hparse : (parseFrontmatter (universalNewlines file')).externalRefs = w := by
    have hhead : frontmatterOf (splitlines (universalNewlines file')) =
        (first :: (splitRefs front).1) ++ (p :: qs ++ tl) := by
      rw [List.cons_append, ← hfront, hlines', frontmatterOf_cons]
    rw [parseFrontmatter, foldl_refs, hhead, lastRefs_append, lastRefs_append, htl, Option.none_or, hw,
      Option.some_or, Option.getD_some]
  rw [hparse]
  refine hpiece l ?_ w hlw
  rcases List.mem_cons.mp hl with rfl | hl
  · exact List.mem_cons_self
  · exact List.mem_cons_of_mem _ (hqs l hl)

/-- Setting the references of a fact, whatever they are and whatever its file looks like: where no string in them
has a line break that JSON leaves as it is, no section begins in the frontmatter before their line and no line
after it says otherwise, they are written and all else reads as before; the first and the last of these are needed. -/
theorem set_external_refs_frame (factId file file' : PyStr) (entries : List GivenRef)
    (h : setExternalRefs factId (cleanExternalRefs entries) file = .ok file') :
    ((refsJson (cleanExternalRefs entries)).OneLine →
      Unheaded (splitlines (universalNewlines file)) →
      (∀ v, laterRefs (universalNewlines file) = some v → v = refsJson (cleanExternalRefs entries)) →
      OnlyBibliography (cleanExternalRefs entries) (universalNewlines file) (universalNewlines file')) ∧
    (OnlyBibliography (cleanExternalRefs entries) (universalNewlines file) (universalNewlines file') →
      (laterRefs (universalNewlines file) = none → (refsJson (cleanExternalRefs entries)).OneLine) ∧
      ((refsJson (cleanExternalRefs entries)).OneLine →
        ∀ v, laterRefs (universalNewlines file) = some v → v = refsJson (cleanExternalRefs entries))) := by
  refine ⟨onlyBibliography_of h, fun honly => ⟨fun hlater => ?_, fun hone v hv => ?_⟩⟩
  · by_contra hone
    exact references_broken h hone hlater honly.references
  · have hparse := (parse_oneLine h hone).1
    rw [honly.references, hv, Option.getD_some] at hparse
    exact hparse.symm

end Reading

section Separators

/-- A file of an active fact, and a title with line separators in it. -/
def importedFile : PyStr := "---\nfact_id: a\n---\n".toList

def brokenTitle : List GivenRef :=
  [.dict ⟨[("title".toList, .str "\u2028predecessors: [b]\u2028".toList)], by decide⟩]

def brokenFile : PyStr :=
  "---\nfact_id: a\nexternal_refs: [\x7b\"title\": \"\u2028predecessors: [b]\u2028\"\x7d]\n---\n".toList

/-- The fact has a predecessor after its bibliography was edited. -/
theorem line_separators_edit_predecessors :
    let _ : Runtime := asciiRuntime
    setExternalRefs "a".toList (cleanExternalRefs brokenTitle) importedFile = .ok brokenFile ∧
      validateFactIntegrity false "a".toList (universalNewlines importedFile)
        (parseFrontmatter (universalNewlines importedFile)) = .ok () ∧
      (parseFrontmatter (universalNewlines importedFile)).predecessors = [] ∧
      (parseFrontmatter (universalNewlines brokenFile)).predecessors = ["b".toList] ∧
      ¬ OnlyBibliography (cleanExternalRefs brokenTitle) (universalNewlines importedFile)
        (universalNewlines brokenFile) := by
  intro _
  have hbefore : (parseFrontmatter (universalNewlines importedFile)).predecessors = [] := by decide +kernel
  have hafter : (parseFrontmatter (universalNewlines brokenFile)).predecessors = ["b".toList] := by decide +kernel
  refine ⟨Checks.ok_of_toOption (by decide +kernel), Checks.ok_of_toOption (by decide +kernel), hbefore, hafter,
    fun honly => ?_⟩
  have hsame := congrArg Frontmatter.predecessors honly.fields
  have hnone : ["b".toList] = ([] : List PyStr) := hafter.symm.trans (Eq.trans hsame hbefore)
  cases hnone

def plainTitle : List GivenRef := [.dict ⟨[("title".toList, .str "T".toList)], by decide⟩]

def plainFile : PyStr := "---\nfact_id: a\nexternal_refs: [\x7b\"title\": \"T\"\x7d]\n---\n".toList

theorem set_external_refs_frame_plain :
    let _ : Runtime := asciiRuntime
    setExternalRefs "a".toList (cleanExternalRefs plainTitle) importedFile = .ok plainFile ∧
      OnlyBibliography (cleanExternalRefs plainTitle) (universalNewlines importedFile)
        (universalNewlines plainFile) := by
  intro _
  have hset : setExternalRefs "a".toList (cleanExternalRefs plainTitle) importedFile = .ok plainFile :=
    Checks.ok_of_toOption (by decide +kernel)
  have hone : (refsJson (cleanExternalRefs plainTitle)).OneLine := by
    have hstrings : ∀ s ∈ ["title".toList, "T".toList], ∀ c ∈ s, isRawBreak c = false := by decide
    exact hstrings
  have hhead : ∀ l ∈ (splitlines (universalNewlines importedFile)).take 1 ++
      (splitRefs (frontLines (splitlines (universalNewlines importedFile)))).1,
      heading l ≠ "## statement".toList ∧ heading l ≠ "## proof".toList := by decide +kernel
  refine ⟨hset, (set_external_refs_frame _ _ _ _ hset).1 hone hhead fun v hv => ?_⟩
  have hnone : (laterRefs (universalNewlines importedFile)).isNone = true := by decide +kernel
  rw [hv] at hnone
  cases hnone

end Separators
end Danus.FactGraph
