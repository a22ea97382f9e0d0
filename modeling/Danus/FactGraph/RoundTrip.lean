import Danus.FactGraph.Format

/-! What `add` writes is what the parser and the two section extractors read back. -/
namespace Danus.FactGraph
open Python

variable {fact : Fact}

/-- What passing the guards says of the fields. -/
theorem checkFields_ok {problemId author statement intuition : PyStr} {predecessors : List PyStr}
    (h : checkFields problemId author statement intuition predecessors = .ok ()) :
    problemId ≠ [] ∧ strip problemId = problemId ∧ IsLine problemId ∧ IsLine author ∧
      (splitlines statement).any (fun line => heading line == "## proof".toList) = false ∧
      (splitlines intuition).any (fun line => heading line == "## intuition".toList) = false ∧
      predecessors.Nodup := by
  have hline : ∀ s : PyStr, ¬ s.any isLineBreak = true → IsLine s := by
    intro s hs c hc
    rw [Bool.not_eq_true, List.any_eq_false] at hs
    simpa using hs c hc
  unfold checkFields at h
  split_ifs at h with h1 h2 h3 h4 h5
  rw [not_or, not_or] at h1
  exact ⟨h1.1, (not_not.mp h1.2.1).symm, hline _ h1.2.2, hline _ h2, by simpa using h3,
    by simpa using h4, h5⟩

/-- The lines of the frontmatter between its two marks. -/
def keyLines (fact : Fact) : List PyStr :=
  ["fact_id: ".toList ++ fact.factId,
    "problem_id: ".toList ++ fact.problemId,
    "author: ".toList ++ fact.author,
    "predecessors: [".toList ++ joinWith ", ".toList fact.predecessors ++ "]".toList,
    "has_intuition: ".toList ++ (if strip fact.intuition ≠ [] then "true".toList else "false".toList),
    "glossary_introduces: ".toList ++ glossaryText fact.glossaryIntroduces,
    "fact_identity: ".toList ++ fact.factIdentity,
    "external_refs: ".toList ++ (refsJson fact.externalRefs).dumps (Json.spaced true false)]

theorem factId_isHexOf (problemId : PyStr) (predecessors : List PyStr)
    (glossary : List (PyStr × PyStr)) (statement proof : PyStr) :
    isHexOf 16 (computeFactId problemId predecessors glossary statement proof) = true := by
  unfold computeFactId
  generalize Json.preimage _ _ = bytes
  have h := Sha256.hexdigest_isHexOf bytes
  simp only [isHexOf, Bool.and_eq_true, beq_iff_eq, List.all_eq_true] at h ⊢
  refine ⟨?_, fun c hc => h.2 c (List.mem_of_mem_take hc)⟩
  rw [List.length_take, h.1]
  rfl

section Frontmatter

theorem frontmatterLines_eq (h : fact.Guarded) :
    frontmatterLines fact = "---".toList :: (keyLines fact ++ ["---".toList]) := by
  have hne : fact.factIdentity ≠ [] := by
    intro he
    have hlen := (isHexOf_chars h.factIdentity).1
    rw [he] at hlen
    cases hlen
  rw [frontmatterLines, if_pos hne]
  rfl

/-- Every line of the frontmatter starts with a letter or a dash. -/
theorem keyLines_start : ∀ l ∈ keyLines fact, ∃ c rest, l = c :: rest ∧ isSpace c = false ∧
    c.toLower ≠ '#' ∧ c ≠ '-' := by
  intro l hl
  simp only [keyLines, List.mem_cons, List.not_mem_nil, or_false] at hl
  rcases hl with rfl | rfl | rfl | rfl | rfl | rfl | rfl | rfl
  all_goals exact ⟨_, _, rfl, by decide, by decide, by decide⟩

theorem keyLines_isLine (h : fact.Guarded) : ∀ l ∈ keyLines fact, IsLine l := by
  obtain ⟨_, _, hproblem, hauthor, _⟩ := checkFields_ok h.fields
  have hplain : ∀ {s : PyStr}, s.all Json.isPlain = true → IsLine s :=
    fun hs => isLine_of_plain (List.all_eq_true.mp hs)
  have hid : IsLine fact.factId := by
    rw [h.factId]
    exact isLine_of_plain fun c hc => ((isHexOf_chars (factId_isHexOf _ _ _ _ _)).2 c hc).1
  have hpreds : IsLine (joinWith ", ".toList fact.predecessors) := by
    refine isLine_of_plain (Json.forall_mem_join (by decide) fun p hp c hc => ?_)
    exact ((isSafeFactId_chars (h.predecessors p hp)).2 c hc).1
  have hident : IsLine fact.factIdentity :=
    isLine_of_plain fun c hc => ((isHexOf_chars h.factIdentity).2 c hc).1
  intro l hl
  simp only [keyLines, List.mem_cons, List.not_mem_nil, or_false] at hl
  rcases hl with rfl | rfl | rfl | rfl | rfl | rfl | rfl | rfl
  · exact (hplain (by decide)).append hid
  · exact (hplain (by decide)).append hproblem
  · exact (hplain (by decide)).append hauthor
  · exact ((hplain (by decide)).append hpreds).append (hplain (by decide))
  · split_ifs <;> exact hplain (by decide)
  · exact (hplain (by decide)).append (isLine_of_plain (Json.plain_dumps _))
  · exact (hplain (by decide)).append hident
  · exact (hplain (by decide)).append (isLine_of_plain (Json.plain_dumps _))

/-- No part of the body ends in a line break. -/
theorem bodyParts_unbroken (fact : Fact) : ∀ p ∈ bodyParts fact, Unbroken p := by
  have hplain : ∀ {s : PyStr}, (∀ c ∈ s, Json.isPlain c = true) → Unbroken s :=
    fun hs => unbroken_line (isLine_of_plain hs)
  intro p hp
  have hcases : p ∈ ["## statement".toList, "## proof".toList, "## intuition".toList, []] ∨
      ∃ s, p = strip s := by
    rw [bodyParts, List.mem_append] at hp
    rcases hp with hp | hp
    · simp only [List.mem_cons, List.not_mem_nil, or_false] at hp
      rcases hp with rfl | rfl | rfl | rfl | rfl | rfl
      · exact .inl (by decide)
      · exact .inl (by decide)
      · exact .inr ⟨_, rfl⟩
      · exact .inl (by decide)
      · exact .inl (by decide)
      · exact .inr ⟨_, rfl⟩
    · by_cases hi : strip fact.intuition ≠ []
      · rw [if_pos hi] at hp
        simp only [List.mem_cons, List.not_mem_nil, or_false] at hp
        rcases hp with rfl | rfl | rfl
        · exact .inl (by decide)
        · exact .inl (by decide)
        · exact .inr ⟨_, rfl⟩
      · rw [if_neg hi] at hp
        cases hp
  rcases hcases with hm | ⟨s, rfl⟩
  · simp only [List.mem_cons, List.not_mem_nil, or_false] at hm
    rcases hm with rfl | rfl | rfl | rfl
    all_goals exact hplain (by decide)
  · exact unbroken_strip s

/-- The lines of a fact's file. -/
theorem splitlines_serializeFact (h : fact.Guarded) : splitlines (serializeFact fact) =
    frontmatterLines fact ++ (bodyParts fact).flatMap linesOf := by
  have hhead : ∀ l ∈ frontmatterLines fact, IsLine l := by
    intro l hl
    rw [frontmatterLines_eq h] at hl
    simp only [List.mem_cons, List.mem_append, List.not_mem_nil, or_false] at hl
    rcases hl with rfl | hl | rfl
    · exact isLine_of_plain (by decide)
    · exact keyLines_isLine h l hl
    · exact isLine_of_plain (by decide)
  have hflat : ∀ ls : List PyStr, (∀ l ∈ ls, IsLine l) → ls.flatMap linesOf = ls := by
    intro ls hls
    induction ls with
    | nil => rfl
    | cons l ls ih =>
      rw [List.flatMap_cons, linesOf_line (hls l List.mem_cons_self),
        ih fun l' hl' => hls l' (List.mem_cons_of_mem _ hl')]
      rfl
  rw [serializeFact, splitlines_join, List.flatMap_append, hflat _ hhead]
  intro p hp
  rcases List.mem_append.mp hp with hp | hp
  · exact unbroken_line (hhead p hp)
  · exact bodyParts_unbroken fact p hp

theorem frontmatterOf_lines (h : fact.Guarded) (rest : List PyStr) :
    frontmatterOf (frontmatterLines fact ++ rest) = "---".toList :: keyLines fact := by
  have hkeys : ∀ l ∈ keyLines fact, decide (strip l ≠ "---".toList) = true := by
    intro l hl
    obtain ⟨c, s, rfl, hc, _, hdash⟩ := keyLines_start l hl
    obtain ⟨t, ht⟩ := strip_cons hc s
    rw [decide_eq_true_iff, ht]
    intro he
    exact hdash (List.cons.inj he).1
  have hend : decide (strip "---".toList ≠ "---".toList) = false := by decide
  rw [frontmatterLines_eq h, frontmatterOf, List.cons_append, List.append_assoc]
  have htake : (("---".toList :: (keyLines fact ++ (["---".toList] ++ rest))).drop 1).takeWhile
      (fun line => decide (strip line ≠ "---".toList)) = keyLines fact := by
    rw [List.drop_one, List.tail_cons, List.takeWhile_append_of_pos hkeys, List.singleton_append,
      List.takeWhile_cons_of_neg (by rw [hend]; decide), List.append_nil]
  rw [htake]
  rfl

variable [Runtime]

/-- The frontmatter of a fact's file. -/
theorem parseFrontmatter_serializeFact (h : fact.Guarded) : parseFrontmatter (serializeFact fact) =
    { factId := fact.factId
      problemId := fact.problemId
      predecessors := fact.predecessors
      glossaryIntroduces := Json.sortByKey fact.glossaryIntroduces
      factIdentity := some fact.factIdentity
      externalRefs := refsJson fact.externalRefs } := by
  obtain ⟨_, hproblem, _⟩ := checkFields_ok h.fields
  have hid : strip fact.factId = fact.factId := by
    rw [h.factId]
    exact strip_of_noSpace fun c hc => ((isHexOf_chars (factId_isHexOf _ _ _ _ _)).2 c hc).2.1
  have hident : strip fact.factIdentity = fact.factIdentity :=
    strip_of_noSpace fun c hc => ((isHexOf_chars h.factIdentity).2 c hc).2.1
  have hmark : ∀ fm : Frontmatter, parseLine (fm, false) "---".toList = (fm, false) :=
    fun fm => parseLine_other (by decide) (by decide) _
  have hauthor : ∀ fm : Frontmatter, parseLine (fm, false) ("author: ".toList ++ fact.author) =
      (fm, false) := fun fm => parseLine_other (by decide) (by decide) _
  have hflag : ∀ (fm : Frontmatter) (s : PyStr), parseLine (fm, false) ("has_intuition: ".toList ++ s) =
      (fm, false) := fun fm s => parseLine_other (by decide) (by decide) _
  rw [parseFrontmatter, splitlines_serializeFact h, frontmatterOf_lines h]
  simp only [keyLines, List.foldl_cons, List.foldl_nil, hmark, hauthor, hflag, parseLine_factId,
    parseLine_problemId, parseLine_predecessors h.predecessors, parseLine_glossary fact.glossary_keys,
    parseLine_identity, parseLine_refs, hid, hproblem, hident]

end Frontmatter

section Sections

theorem keyLines_heading {title : PyStr} (ht : title.head? = some '#') :
    ∀ l ∈ keyLines fact, heading l ≠ title := by
  intro l hl
  obtain ⟨c, s, rfl, hc, hash, _⟩ := keyLines_start l hl
  refine heading_ne hc ?_
  rw [ht]
  intro he
  exact hash (Option.some.inj he).symm

theorem frontmatterLines_heading (h : fact.Guarded) {title : PyStr} (ht : title.head? = some '#') :
    ∀ l ∈ frontmatterLines fact, heading l ≠ title := by
  have hmark : heading "---".toList ≠ title := by
    refine heading_ne (c := '-') (by decide) ?_
    rw [ht]
    decide
  intro l hl
  rw [frontmatterLines_eq h] at hl
  rcases List.mem_cons.mp hl with rfl | hl
  · exact hmark
  · rcases List.mem_append.mp hl with hl | hl
    · exact keyLines_heading ht l hl
    · rw [List.mem_singleton.mp hl]
      exact hmark

/-- The lines of the intuition section, with the blank line before it. -/
def intuitionLines (fact : Fact) : List PyStr :=
  if strip fact.intuition ≠ [] then [[], "## intuition".toList] ++ linesOf (strip fact.intuition) else []

theorem bodyLines (fact : Fact) : (bodyParts fact).flatMap linesOf =
    [[], "## statement".toList] ++ linesOf (strip fact.statement) ++ [[], "## proof".toList] ++
      linesOf (strip fact.proof) ++ intuitionLines fact := by
  have h1 : linesOf "## statement".toList = ["## statement".toList] := linesOf_line (by decide)
  have h2 : linesOf "## proof".toList = ["## proof".toList] := linesOf_line (by decide)
  have h3 : linesOf "## intuition".toList = ["## intuition".toList] := linesOf_line (by decide)
  have h0 : linesOf [] = [[]] := rfl
  unfold bodyParts intuitionLines
  split_ifs
  · simp only [List.flatMap_cons, List.flatMap_nil, h0, h1, h2, h3,
      List.append_assoc, List.cons_append, List.nil_append, List.append_nil]
  · simp only [List.flatMap_cons, List.flatMap_nil, h0, h1, h2,
      List.append_assoc, List.cons_append, List.nil_append, List.append_nil]

/-- The statement is read back as its lines, stripped and joined by spaces. -/
theorem statementOf_serializeFact (h : fact.Guarded) : statementOf (serializeFact fact) =
    strip (joinWith [' '] (trimmedLines (splitlines fact.statement))) := by
  obtain ⟨_, _, _, _, hstatement, _⟩ := checkFields_ok h.fields
  have hblank : heading [] ≠ "## statement".toList := by decide
  have hlines : afterHeading "## statement".toList (splitlines (serializeFact fact)) =
      (linesOf (strip fact.statement) ++ [[]]) ++
        "## proof".toList :: (linesOf (strip fact.proof) ++ intuitionLines fact) := by
    have hsplit : [[], "## statement".toList] ++ linesOf (strip fact.statement) ++
        [[], "## proof".toList] ++ linesOf (strip fact.proof) ++ intuitionLines fact =
        [[]] ++ "## statement".toList :: ((linesOf (strip fact.statement) ++ [[]]) ++
          "## proof".toList :: (linesOf (strip fact.proof) ++ intuitionLines fact)) := by
      simp only [List.append_assoc, List.cons_append, List.nil_append]
    rw [splitlines_serializeFact h, bodyLines, hsplit, afterHeading_skip (frontmatterLines_heading h rfl),
      afterHeading_skip (by simpa using hblank), afterHeading_cons (by decide)]
  have hbody : ∀ l ∈ linesOf (strip fact.statement) ++ [[]],
      (heading l != "## proof".toList) = true := by
    intro l hl
    rw [bne_iff_ne]
    rcases List.mem_append.mp hl with hl | hl
    · exact heading_linesOf (by decide) hstatement l hl
    · rw [List.mem_singleton.mp hl]
      decide
  have htake : ((linesOf (strip fact.statement) ++ [[]]) ++
      "## proof".toList :: (linesOf (strip fact.proof) ++ intuitionLines fact)).takeWhile
        (fun line => heading line != "## proof".toList) = linesOf (strip fact.statement) ++ [[]] := by
    have hend : (heading "## proof".toList != "## proof".toList) = false := by decide
    rw [List.takeWhile_append_of_pos hbody, List.takeWhile_cons_of_neg (by rw [hend]; decide),
      List.append_nil]
  have htrim : trimmedLines (linesOf (strip fact.statement) ++ [[]]) =
      trimmedLines (splitlines fact.statement) := by
    rw [trimmedLines_append, trimmedLines_linesOf, trimmedLines_strip]
    exact List.append_nil _
  rw [statementOf, hlines, htake]
  exact congrArg (fun ls => strip (joinWith [' '] ls)) htrim

theorem words_statementOf (h : fact.Guarded) :
    words (statementOf (serializeFact fact)) = words fact.statement := by
  rw [statementOf_serializeFact h, words_strip, words_join (by decide), words_trimmedLines,
    words_splitlines]

/-- The flag in the frontmatter says whether there is an intuition section. -/
theorem intuitionFlag_lines (h : fact.Guarded) (rest : List PyStr) :
    intuitionFlag 0 (frontmatterLines fact ++ rest) = some (decide (strip fact.intuition ≠ [])) := by
  have hskip : ∀ (n : Nat) {l : PyStr} (ls : List PyStr), l ∈ keyLines fact →
      startsWith "has_intuition:".toList l = false →
      intuitionFlag (n + 1) (l :: ls) = intuitionFlag (n + 2) ls := by
    intro n l ls hl hstart
    obtain ⟨c, s, rfl, hc, _, hdash⟩ := keyLines_start l hl
    obtain ⟨t, ht⟩ := strip_cons hc s
    have hmark : strip (c :: s) ≠ "---".toList := by
      rw [ht]
      intro he
      exact hdash (List.cons.inj he).1
    rw [intuitionFlag, if_neg fun he => hmark he.2, hstart, if_neg (by decide)]
  have hmark : ∀ ls, intuitionFlag 0 ("---".toList :: ls) = intuitionFlag 1 ls := fun ls => rfl
  have hvalue : ∀ s : PyStr, afterColon ("has_intuition: ".toList ++ s) = strip s :=
    fun s => strip_cons_space (by decide)
  have hflag : ∀ (s : PyStr) (ls : List PyStr), intuitionFlag 5 (("has_intuition: ".toList ++ s) :: ls) =
      some (lower (strip s) == "true".toList) := by
    intro s ls
    obtain ⟨t, ht⟩ := strip_cons (c := 'h') (by decide) ("as_intuition: ".toList ++ s)
    have hdash : strip ("has_intuition: ".toList ++ s) ≠ "---".toList := by
      intro he
      rw [show strip ("has_intuition: ".toList ++ s) = 'h' :: t from ht] at he
      cases he
    have hstart : startsWith "has_intuition:".toList ("has_intuition: ".toList ++ s) = true := rfl
    rw [intuitionFlag, if_neg fun he => hdash he.2, hstart, if_pos rfl, hvalue]
  rw [frontmatterLines_eq h, List.cons_append, hmark]
  simp only [keyLines, List.cons_append]
  rw [hskip 0 _ (List.mem_of_getElem? (i := 0) rfl) rfl,
    hskip 1 _ (List.mem_of_getElem? (i := 1) rfl) rfl,
    hskip 2 _ (List.mem_of_getElem? (i := 2) rfl) rfl,
    hskip 3 _ (List.mem_of_getElem? (i := 3) rfl) rfl, hflag]
  by_cases hi : strip fact.intuition ≠ []
  · rw [if_pos hi, decide_eq_true hi]
    rfl
  · rw [if_neg hi, decide_eq_false hi]
    rfl

/-- The proof section and what follows it. -/
theorem afterHeading_proof (h : fact.Guarded) :
    afterHeading "## proof".toList (splitlines (serializeFact fact)) =
      linesOf (strip fact.proof) ++ intuitionLines fact := by
  obtain ⟨_, _, _, _, hstatement, _⟩ := checkFields_ok h.fields
  have hsplit : [[], "## statement".toList] ++ linesOf (strip fact.statement) ++
      [[], "## proof".toList] ++ linesOf (strip fact.proof) ++ intuitionLines fact =
      ([[], "## statement".toList] ++ linesOf (strip fact.statement) ++ [[]]) ++
        "## proof".toList :: (linesOf (strip fact.proof) ++ intuitionLines fact) := by
    simp only [List.append_assoc, List.cons_append, List.nil_append]
  have hbefore : ∀ l ∈ [[], "## statement".toList] ++ linesOf (strip fact.statement) ++ [[]],
      heading l ≠ "## proof".toList := by
    intro l hl
    rcases List.mem_append.mp hl with hl | hl
    · rcases List.mem_append.mp hl with hl | hl
      · simp only [List.mem_cons, List.not_mem_nil, or_false] at hl
        rcases hl with rfl | rfl <;> decide
      · exact heading_linesOf (by decide) hstatement l hl
    · rw [List.mem_singleton.mp hl]
      decide
  rw [splitlines_serializeFact h, bodyLines, hsplit, afterHeading_skip (frontmatterLines_heading h rfl),
    afterHeading_skip hbefore, afterHeading_cons (by decide)]

theorem words_proofOf (h : fact.Guarded) :
    words (proofOf (serializeFact fact)) = words fact.proof := by
  obtain ⟨_, _, _, _, _, hintuition, _⟩ := checkFields_ok h.fields
  have hflag := intuitionFlag_lines h ((bodyParts fact).flatMap linesOf)
  rw [← splitlines_serializeFact h] at hflag
  have hout := afterHeading_proof h
  have hword : ∀ tail : List PyStr, tail.flatMap words = [] →
      words (strip (joinWith ['\n'] (linesOf (strip fact.proof) ++ tail))) = words fact.proof := by
    intro tail htail
    rw [words_strip, words_join (by decide), List.flatMap_append, words_linesOf, words_strip, htail,
      List.append_nil]
  by_cases hi : strip fact.intuition ≠ []
  · have hlast : linesOf (strip fact.proof) ++ intuitionLines fact =
        (linesOf (strip fact.proof) ++ [[]]) ++
          "## intuition".toList :: linesOf (strip fact.intuition) := by
      rw [intuitionLines, if_pos hi]
      simp only [List.append_assoc, List.cons_append, List.nil_append]
    have hne : "## intuition".toList ≠ [] := by decide
    have hafter := heading_linesOf hne hintuition
    have hany : (linesOf (strip fact.proof) ++ intuitionLines fact).any
        (heading · == "## intuition".toList) = true := by
      rw [hlast, List.any_append, List.any_cons]
      have htitle : (heading "## intuition".toList == "## intuition".toList) = true := by decide
      rw [htitle, Bool.true_or, Bool.or_true]
    have hbefore : beforeLast "## intuition".toList
        (linesOf (strip fact.proof) ++ intuitionLines fact) = linesOf (strip fact.proof) ++ [[]] := by
      rw [hlast]
      exact beforeLast_append (by decide) hafter
    simp only [proofOf, hout, hany, hflag, decide_eq_true hi, if_true, hbefore]
    exact hword [[]] rfl
  · have hnone : intuitionLines fact = [] := if_neg hi
    have hbody : proofOf (serializeFact fact) = strip (joinWith ['\n'] (linesOf (strip fact.proof))) := by
      simp only [proofOf, hout, hflag, decide_eq_false hi, hnone, List.append_nil, ite_self]
    have h := hword [] rfl
    rw [hbody]
    rwa [List.append_nil] at h

end Sections

section Files

theorem statementOf_readText (text : PyStr) : statementOf (universalNewlines text) = statementOf text := by
  rw [statementOf, splitlines_universalNewlines]
  rfl

theorem proofOf_readText (text : PyStr) : proofOf (universalNewlines text) = proofOf text := by
  rw [proofOf, splitlines_universalNewlines]
  rfl

variable [Runtime]

theorem parseFrontmatter_readText (text : PyStr) :
    parseFrontmatter (universalNewlines text) = parseFrontmatter text := by
  rw [parseFrontmatter, splitlines_universalNewlines]
  rfl

theorem validateFactIntegrity_serializeFact (h : fact.Guarded) :
    validateFactIntegrity false fact.factId (serializeFact fact) (parseFrontmatter (serializeFact fact)) =
      .ok () := by
  obtain ⟨hne, _⟩ := checkFields_ok h.fields
  have hs := normalize_congr (words_statementOf h)
  have hp := normalize_congr (words_proofOf h)
  have hsort : Json.sortByKey (Json.sortByKey fact.glossaryIntroduces) =
    Json.sortByKey fact.glossaryIntroduces := Json.sortByKey_eq (Json.sortByKey_pairwise _)
  have hid : computeFactId fact.problemId fact.predecessors (Json.sortByKey fact.glossaryIntroduces)
      (statementOf (serializeFact fact)) (proofOf (serializeFact fact)) = fact.factId := by
    rw [h.factId]
    unfold computeFactId factBody
    rw [hs, hp, hsort]
  have hhex : isHexOf 16 fact.factId = true := by
    rw [h.factId]
    exact factId_isHexOf _ _ _ _ _
  rw [parseFrontmatter_serializeFact h]
  simp [validateFactIntegrity, hid, hhex, hne, h.factIdentity]

/-- Serializing a fact and parsing it back is the identity on everything that is hashed: every field
comes back, the glossary under its sorted terms, and statement and proof up to white space, so that
the recomputed id is the file's name and the fact stays readable; and it does so too where the file was
read with its line ends translated. -/
theorem serializeFact_readable (h : fact.Guarded) (text : PyStr)
    (ht : text = serializeFact fact ∨ text = universalNewlines (serializeFact fact)) :
    parseFrontmatter text =
      { factId := fact.factId
        problemId := fact.problemId
        predecessors := fact.predecessors
        glossaryIntroduces := Json.sortByKey fact.glossaryIntroduces
        factIdentity := some fact.factIdentity
        externalRefs := refsJson fact.externalRefs } ∧
    normalize (statementOf text) = normalize fact.statement ∧
    normalize (proofOf text) = normalize fact.proof ∧
    validateFactIntegrity false fact.factId text (parseFrontmatter text) = .ok () := by
  have hs := normalize_congr (words_statementOf h)
  have hp := normalize_congr (words_proofOf h)
  have hread : parseFrontmatter text = parseFrontmatter (serializeFact fact) ∧
      statementOf text = statementOf (serializeFact fact) ∧
      proofOf text = proofOf (serializeFact fact) := by
    rcases ht with rfl | rfl
    · exact ⟨rfl, rfl, rfl⟩
    · exact ⟨parseFrontmatter_readText _, statementOf_readText _, proofOf_readText _⟩
  obtain ⟨hfm, hst, hpr⟩ := hread
  refine ⟨hfm.trans (parseFrontmatter_serializeFact h), by rw [hst, hs], by rw [hpr, hp], ?_⟩
  have hvalid := validateFactIntegrity_serializeFact h
  unfold validateFactIntegrity at hvalid ⊢
  rw [hfm, hst, hpr]
  exact hvalid

end Files

/-- A proof with the marks and headings of the format in it. -/
def boundaryFact : Fact where
  factId := computeFactId "p".toList [] [] "x = x".toList
    "---\n## statement\nfact_id: 0\n## intuition\nby rfl".toList
  problemId := "p".toList
  author := "worker".toList
  predecessors := []
  statement := "x = x".toList
  proof := "---\n## statement\nfact_id: 0\n## intuition\nby rfl".toList
  glossaryIntroduces := []
  intuition := "both sides agree".toList
  factIdentity := List.replicate 64 'a'
  externalRefs := []
  glossary_keys := List.nodup_nil

/-- A packaged glossary without terms, and ASCII for the character tables. -/
@[reducible] def asciiRuntime : Runtime where
  valueText v := v.dumps (Json.spaced false false)
  reprText s := '\'' :: s ++ ['\'']
  isAlnum := isAlnumAscii
  globalGlossary := []
  globalGlossary_keys := List.nodup_nil

theorem serializeFact_readable_boundary :
    boundaryFact.Guarded ∧
    normalize (proofOf (serializeFact boundaryFact)) = normalize boundaryFact.proof ∧
    validateFactIntegrity false boundaryFact.factId (serializeFact boundaryFact)
      (@parseFrontmatter asciiRuntime (serializeFact boundaryFact)) = .ok () := by
  have hg : boundaryFact.Guarded := ⟨by decide, by decide, rfl, by decide⟩
  have h := @serializeFact_readable boundaryFact asciiRuntime hg (serializeFact boundaryFact) (.inl rfl)
  exact ⟨hg, h.2.2.1, h.2.2.2⟩

end Danus.FactGraph
