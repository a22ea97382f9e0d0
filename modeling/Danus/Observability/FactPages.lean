import Danus.FactGraph.RoundTrip
import Danus.Lib.Joined
import Danus.Lib.JsonPieces
import Danus.Lib.Records
import Danus.Observability.App

/-! The page of one fact: what the dashboard's parser makes of the file that the graph writes. -/
namespace Danus.Observability
open Python FactGraph

section Text
variable {s t body : PyStr} {ls : List PyStr}

/-- Text in front that has no carriage return stays as it is. -/
theorem universalNewlines_append (hs : '\r' ∉ s) :
    universalNewlines (s ++ t) = s ++ universalNewlines t := by
  induction s with
  | nil => rfl
  | cons c s ih =>
    rw [List.mem_cons, not_or] at hs
    have hc : c ≠ '\r' := Ne.symm hs.1
    have hcrlf : ∀ cs, c = '\r' → s ++ t = '\n' :: cs → False := fun _ h => (hc h).elim
    rw [List.cons_append, universalNewlines.eq_3 c (s ++ t) hcrlf, if_neg hc, ih hs.2,
      List.cons_append]

/-- The lines of a text without a line break at its end. -/
theorem splitlines_joinLines (hne : ls ≠ []) (hl : ∀ l ∈ ls, l ≠ [] ∧ IsLine l) :
    splitlines (joinWith ['\n'] ls) = ls := by
  induction ls with
  | nil => exact (hne rfl).elim
  | cons l ls ih =>
    obtain ⟨hnil, hline⟩ := hl l List.mem_cons_self
    have hone : linesOf l = [l] := linesOf_line hline
    cases ls with
    | nil =>
      rw [linesOf, if_neg hnil] at hone
      rwa [joinWith_singleton]
    | cons l' ls =>
      have h := ih (List.cons_ne_nil _ _) fun m hm => hl m (List.mem_cons_of_mem _ hm)
      rw [joinWith_cons_cons, List.singleton_append, splitlines_append (unbroken_line hline), h, hone]
      rfl

theorem mem_of_mem_strip {c : Char} (h : c ∈ strip s) : c ∈ s := by
  rw [strip, rstrip, List.mem_reverse] at h
  exact (List.dropWhile_suffix _).subset (List.mem_reverse.mp ((List.dropWhile_suffix _).subset h))

end Text

section Closing
variable {body rest : PyStr} {l : PyStr} {ls : List PyStr}

/-- A line does not close the frontmatter. -/
theorem closing_line {c : Char} (hc : c ≠ '\n') (s : PyStr) : closing (c :: s) = none := by
  have h : startsWith "\n---".toList (c :: s) = false := startsWith_cons_ne (Ne.symm hc) _ _
  rw [closing, h, if_neg (by decide)]

theorem untilClosing_text (hl : '\n' ∉ l) {s : PyStr} {p : PyStr × PyStr}
    (h : untilClosing s = some p) : untilClosing (l ++ s) = some (l ++ p.1, p.2) := by
  induction l with
  | nil => exact h
  | cons c l ih =>
    rw [List.mem_cons, not_or] at hl
    rw [List.cons_append, untilClosing, closing_line (Ne.symm hl.1), ih hl.2]
    rfl

/-- The end of the frontmatter and the body. -/
theorem untilClosing_end (hb : ∀ c ∈ body.head?, isSpace c = false) (hne : body ≠ []) :
    untilClosing ("\n---\n\n".toList ++ body) = some ([], body) := by
  obtain ⟨c, body, rfl⟩ := List.exists_cons_of_ne_nil hne
  have hc : isSpace c = false := hb c rfl
  have hends : blankEnds ('\n' :: '\n' :: c :: body) = [c :: body, '\n' :: c :: body] := by
    have hstop : blankEnds (c :: body) = [] := by rw [blankEnds, if_neg (by simp [hc])]
    have hspace : isSpace '\n' = true := by decide
    rw [blankEnds, if_pos hspace, blankEnds, if_pos hspace, hstop]
    rfl
  have hstart : startsWith "\n---".toList ("\n---\n\n".toList ++ (c :: body)) = true := rfl
  have hclosing : closing ("\n---\n\n".toList ++ (c :: body)) = some (c :: body) := by
    rw [closing, hstart, if_pos rfl]
    exact congrArg List.head? hends
  have hcons : "\n---\n\n".toList ++ (c :: body) = '\n' :: ("---\n\n".toList ++ (c :: body)) := rfl
  rw [hcons] at hclosing ⊢
  rw [untilClosing, hclosing]

/-- The frontmatter ends at the first line of dashes. -/
theorem untilClosing_lines (hb : ∀ c ∈ body.head?, isSpace c = false) (hne : body ≠ [])
    (hls : ls ≠ []) (hl : ∀ l ∈ ls, '\n' ∉ l ∧ ∃ c s, l = c :: s ∧ c ≠ '-') :
    untilClosing (joinWith ['\n'] ls ++ ("\n---\n\n".toList ++ body)) =
      some (joinWith ['\n'] ls, body) := by
  induction ls with
  | nil => exact (hls rfl).elim
  | cons l ls ih =>
    obtain ⟨hfeed, _⟩ := hl l List.mem_cons_self
    cases ls with
    | nil =>
      have h := untilClosing_text hfeed (untilClosing_end hb hne)
      rwa [List.append_nil, ← joinWith_singleton ['\n'] l] at h
    | cons l' ls =>
      have h := ih (List.cons_ne_nil _ _) fun m hm => hl m (List.mem_cons_of_mem _ hm)
      obtain ⟨_, c, s, rfl, hdash⟩ := hl l' (List.mem_cons_of_mem _ List.mem_cons_self)
      have hopen : closing ('\n' :: (joinWith ['\n'] ((c :: s) :: ls) ++
          ("\n---\n\n".toList ++ body))) = none := by
        have hstart : startsWith "\n---".toList ('\n' :: (joinWith ['\n'] ((c :: s) :: ls) ++
            ("\n---\n\n".toList ++ body))) = false := by
          obtain ⟨r, hr⟩ : ∃ r, joinWith ['\n'] ((c :: s) :: ls) = c :: r := by
            cases ls with
            | nil => exact ⟨s, joinWith_singleton _ _⟩
            | cons l' ls => exact ⟨_, joinWith_cons_cons _ _ _ _⟩
          rw [hr]
          have hne : ('-' == c) = false := beq_false_of_ne (Ne.symm hdash)
          simp [startsWith, List.isPrefixOf, hne]
        rw [closing, hstart, if_neg (by decide)]
      have hnext : untilClosing ('\n' :: (joinWith ['\n'] ((c :: s) :: ls) ++
          ("\n---\n\n".toList ++ body))) = some ('\n' :: joinWith ['\n'] ((c :: s) :: ls), body) := by
        rw [untilClosing, hopen, h]
        rfl
      have hline := untilClosing_text hfeed hnext
      rw [joinWith_cons_cons, List.append_assoc]
      exact hline

end Closing

section Frontmatter
variable {fact : Fact}

/-- The text after the frontmatter. -/
def bodyText (fact : Fact) : PyStr := joinWith ['\n'] ((bodyParts fact).drop 1 ++ [[]])

theorem keyLines_lines (h : fact.Guarded) : ∀ l ∈ keyLines fact,
    (l ≠ [] ∧ IsLine l) ∧ '\n' ∉ l ∧ ∃ c s, l = c :: s ∧ c ≠ '-' := by
  intro l hl
  have hline := keyLines_isLine h l hl
  obtain ⟨c, s, rfl, _, _, hdash⟩ := keyLines_start l hl
  refine ⟨⟨List.cons_ne_nil _ _, hline⟩, fun hm => ?_, c, s, rfl, hdash⟩
  have hfeed := hline _ hm
  revert hfeed
  decide

theorem serializeFact_text (h : fact.Guarded) : serializeFact fact =
    "---\n".toList ++ (joinWith ['\n'] (keyLines fact) ++ ("\n---\n\n".toList ++ bodyText fact)) := by
  have hkeys : keyLines fact ≠ [] := List.cons_ne_nil _ _
  have hparts : bodyParts fact = [] :: (bodyParts fact).drop 1 := rfl
  have hlines : frontmatterLines fact ++ bodyParts fact ++ [[]] =
      ["---".toList] ++ (keyLines fact ++
        (["---".toList, []] ++ ((bodyParts fact).drop 1 ++ [[]]))) := by
    rw [frontmatterLines_eq h, hparts]
    simp only [List.cons_append, List.nil_append, List.append_assoc, List.drop_one, List.tail_cons]
  have hmark : joinWith ['\n'] ["---".toList] = "---".toList := rfl
  have hend : joinWith ['\n'] ["---".toList, []] = "---\n".toList := rfl
  rw [serializeFact, hlines, joinWith_append _ (List.cons_ne_nil _ _) (by simp),
    joinWith_append _ hkeys (by simp), joinWith_append _ (List.cons_ne_nil _ _) (by simp), hmark, hend,
    bodyText]
  rfl

/-- The file as it is read, with its line ends translated. -/
theorem readText_page (h : fact.Guarded) : universalNewlines (serializeFact fact) =
    "---\n".toList ++ (joinWith ['\n'] (keyLines fact) ++
      ("\n---\n\n".toList ++ universalNewlines (bodyText fact))) := by
  have hkeys : '\r' ∉ joinWith ['\n'] (keyLines fact) := by
    intro hm
    have hall : ∀ c ∈ joinWith ['\n'] (keyLines fact), c ≠ '\r' := by
      refine Json.forall_mem_join (by decide) fun l hl c hc => ?_
      have hline := keyLines_isLine h l hl c hc
      rintro rfl
      revert hline
      decide
    exact hall _ hm rfl
  rw [serializeFact_text h, universalNewlines_append (by decide), universalNewlines_append hkeys,
    universalNewlines_append (by decide)]

theorem bodyText_head (fact : Fact) : ∃ r, universalNewlines (bodyText fact) = '#' :: r := by
  have htext : ∃ r, bodyText fact = '#' :: r := ⟨_, joinWith_cons_cons _ _ _ _⟩
  obtain ⟨r, hr⟩ := htext
  rw [hr]
  exact ⟨_, universalNewlines_append (s := ['#']) (t := r) (by decide)⟩

theorem matchFrontmatter_page (h : fact.Guarded) :
    matchFrontmatter (universalNewlines (serializeFact fact)) =
      some (joinWith ['\n'] (keyLines fact), universalNewlines (bodyText fact)) := by
  obtain ⟨r, hr⟩ := bodyText_head fact
  have hne : universalNewlines (bodyText fact) ≠ [] := by
    rw [hr]
    exact List.cons_ne_nil _ _
  have hhead : ∀ c ∈ (universalNewlines (bodyText fact)).head?, isSpace c = false := by
    rw [hr]
    rintro c ⟨⟩
    decide
  have hclosing : untilClosing (joinWith ['\n'] (keyLines fact) ++
      ("\n---\n\n".toList ++ universalNewlines (bodyText fact))) =
      some (joinWith ['\n'] (keyLines fact), universalNewlines (bodyText fact)) :=
    untilClosing_lines hhead hne (List.cons_ne_nil _ _) fun l hl => (keyLines_lines h l hl).2
  obtain ⟨f, hf⟩ : ∃ f, joinWith ['\n'] (keyLines fact) = 'f' :: f := ⟨_, joinWith_cons_cons _ _ _ _⟩
  have hdrop : ("---\n".toList ++ (joinWith ['\n'] (keyLines fact) ++
      ("\n---\n\n".toList ++ universalNewlines (bodyText fact)))).drop 3 =
      '\n' :: (joinWith ['\n'] (keyLines fact) ++
        ("\n---\n\n".toList ++ universalNewlines (bodyText fact))) := rfl
  have hends : blankEnds ('\n' :: (joinWith ['\n'] (keyLines fact) ++
      ("\n---\n\n".toList ++ universalNewlines (bodyText fact)))) =
      [joinWith ['\n'] (keyLines fact) ++
        ("\n---\n\n".toList ++ universalNewlines (bodyText fact))] := by
    have hspace : isSpace '\n' = true := by decide
    have hstop : ∀ s, blankEnds ('f' :: s) = [] := fun s => by
      rw [blankEnds, if_neg (by decide)]
    rw [blankEnds, if_pos hspace, hf, List.cons_append, hstop]
    rfl
  have hstart : startsWith "---".toList ("---\n".toList ++ (joinWith ['\n'] (keyLines fact) ++
      ("\n---\n\n".toList ++ universalNewlines (bodyText fact)))) = true := rfl
  rw [readText_page h, matchFrontmatter, hstart, if_pos rfl, hdrop, hends, List.findSome?_cons,
    hclosing]

/-- A line of the frontmatter. -/
theorem readLine_key {k start : PyStr} (hstart : start = k ++ [':', ' ']) (hk : ':' ∉ k)
    (hs : strip k = k) (v : PyStr) : readLine (start ++ v) = some (k, readValue (strip v)) := by
  have hne : ∀ c ∈ k, decide (c ≠ ':') = true := by
    intro c hc
    rw [decide_eq_true_eq]
    rintro rfl
    exact hk hc
  have hstop : decide ((':' : Char) ≠ ':') = false := by decide
  have htake : (k ++ ':' :: ' ' :: v).takeWhile (fun c => decide (c ≠ ':')) = k := by
    rw [List.takeWhile_append_of_pos hne, List.takeWhile_cons_of_neg (by simp), List.append_nil]
  have hdrop : (k ++ ':' :: ' ' :: v).dropWhile (fun c => decide (c ≠ ':')) = ':' :: ' ' :: v := by
    rw [List.dropWhile_append_of_pos hne, List.dropWhile_cons_of_neg (by simp)]
  have hmem : ':' ∈ k ++ ':' :: ' ' :: v := by simp
  rw [hstart, List.append_assoc, List.cons_append, List.singleton_append, readLine, if_pos hmem, htake,
    hdrop, hs, List.drop_one, List.tail_cons, strip_cons_space (by decide)]

theorem frontmatter_keyLines (fact : Fact) : frontmatter (keyLines fact) =
    [("external_refs".toList,
        readValue (strip ((refsJson fact.externalRefs).dumps (Json.spaced true false)))),
      ("fact_identity".toList, readValue (strip fact.factIdentity)),
      ("glossary_introduces".toList, readValue (strip (glossaryText fact.glossaryIntroduces))),
      ("has_intuition".toList,
        readValue (strip (if strip fact.intuition ≠ [] then "true".toList else "false".toList))),
      ("predecessors".toList,
        readValue (strip ('[' :: joinWith ", ".toList fact.predecessors ++ [']']))),
      ("author".toList, readValue (strip fact.author)),
      ("problem_id".toList, readValue (strip fact.problemId)),
      ("fact_id".toList, readValue (strip fact.factId))] := by
  have h1 : ∀ v, readLine ("fact_id: ".toList ++ v) = some ("fact_id".toList, readValue (strip v)) :=
    readLine_key (by decide) (by decide) (by decide)
  have h2 : ∀ v, readLine ("problem_id: ".toList ++ v) =
      some ("problem_id".toList, readValue (strip v)) :=
    readLine_key (by decide) (by decide) (by decide)
  have h3 : ∀ v, readLine ("author: ".toList ++ v) = some ("author".toList, readValue (strip v)) :=
    readLine_key (by decide) (by decide) (by decide)
  have h4 : ∀ v, readLine ("predecessors: ".toList ++ v) =
      some ("predecessors".toList, readValue (strip v)) :=
    readLine_key (by decide) (by decide) (by decide)
  have h5 : ∀ v, readLine ("has_intuition: ".toList ++ v) =
      some ("has_intuition".toList, readValue (strip v)) :=
    readLine_key (by decide) (by decide) (by decide)
  have h6 : ∀ v, readLine ("glossary_introduces: ".toList ++ v) =
      some ("glossary_introduces".toList, readValue (strip v)) :=
    readLine_key (by decide) (by decide) (by decide)
  have h7 : ∀ v, readLine ("fact_identity: ".toList ++ v) =
      some ("fact_identity".toList, readValue (strip v)) :=
    readLine_key (by decide) (by decide) (by decide)
  have h8 : ∀ v, readLine ("external_refs: ".toList ++ v) =
      some ("external_refs".toList, readValue (strip v)) :=
    readLine_key (by decide) (by decide) (by decide)
  have hbracket : "predecessors: [".toList = "predecessors: ".toList ++ ['['] := by decide
  have hpreds : ∀ v, "predecessors: [".toList ++ v ++ "]".toList =
      "predecessors: ".toList ++ ('[' :: v ++ [']']) := by
    intro v
    have hclose : "]".toList = [']'] := by decide
    rw [hbracket, hclose]
    simp only [List.append_assoc, List.cons_append, List.nil_append]
  rw [frontmatter, keyLines, hpreds, List.filterMap_cons_some (h1 _), List.filterMap_cons_some (h2 _),
    List.filterMap_cons_some (h3 _), List.filterMap_cons_some (h4 _), List.filterMap_cons_some (h5 _),
    List.filterMap_cons_some (h6 _), List.filterMap_cons_some (h7 _), List.filterMap_cons_some (h8 _)]
  rfl

/-- An id has no quotes around it. -/
theorem stripQuotes_id {p : PyStr} (h : isSafeFactId p = true) : stripQuotes p = p := by
  have hchars : ∀ c ∈ p, (c == '\'' || c == '"') = false := by
    intro c hc
    cases p with
    | nil => cases hc
    | cons d p =>
      simp only [isSafeFactId, Bool.and_eq_true, List.all_eq_true, Bool.or_eq_true, beq_iff_eq] at h
      have hc' : isAlnumAscii c = true ∨ c = '.' ∨ c = '_' ∨ c = '-' := by
        rcases List.mem_cons.mp hc with rfl | hc
        · exact .inl h.1
        · rcases h.2 c hc with ((hc | hc) | hc) | hc
          · exact .inl hc
          · exact .inr (.inl hc)
          · exact .inr (.inr (.inl hc))
          · exact .inr (.inr (.inr hc))
      rw [Bool.or_eq_false_iff, beq_eq_false_iff_ne, beq_eq_false_iff_ne]
      constructor <;> rintro rfl <;> revert hc' <;> decide
  have hdrop : ∀ s : PyStr, (∀ c ∈ s, (c == '\'' || c == '"') = false) →
      s.dropWhile (fun c => c == '\'' || c == '"') = s := by
    intro s hs
    cases s with
    | nil => rfl
    | cons c s => exact List.dropWhile_cons_of_neg (by simp [hs c List.mem_cons_self])
  rw [stripQuotes, hdrop p hchars, hdrop _ fun c hc => hchars c (List.mem_reverse.mp hc),
    List.reverse_reverse]

theorem ids_ends {ids : List PyStr} (h : ∀ p ∈ ids, isSafeFactId p = true) :
    (∀ c ∈ (joinWith ", ".toList ids).head?, isSpace c = false) ∧
      ∀ c ∈ (joinWith ", ".toList ids).getLast?, isSpace c = false := by
  induction ids with
  | nil => exact ⟨by rintro c ⟨⟩, by rintro c ⟨⟩⟩
  | cons p ids ih =>
    obtain ⟨hne, hchars⟩ := isSafeFactId_chars (h p List.mem_cons_self)
    have hhead : ∀ c ∈ p.head?, isSpace c = false := fun c hc => (hchars c (List.mem_of_mem_head? hc)).2.1
    have hlast : ∀ c ∈ p.getLast?, isSpace c = false := fun c hc => (hchars c (List.mem_of_getLast? hc)).2.1
    cases ids with
    | nil =>
      rw [joinWith_singleton]
      exact ⟨hhead, hlast⟩
    | cons q ids =>
      have hq : ∀ r ∈ q :: ids, isSafeFactId r = true := fun r hr => h r (List.mem_cons_of_mem _ hr)
      have htail : joinWith ", ".toList (q :: ids) ≠ [] :=
        joinWith_ne_nil (List.cons_ne_nil _ _) fun r hr => (isSafeFactId_chars (hq r hr)).1
      obtain ⟨d, p, rfl⟩ := List.exists_cons_of_ne_nil hne
      rw [joinWith_cons_cons]
      have hfirst : ∀ c ∈ (d :: p ++ (", ".toList ++ joinWith ", ".toList (q :: ids))).head?,
          isSpace c = false := by
        rw [List.cons_append, List.head?_cons]
        exact hhead
      refine ⟨hfirst, fun c hc => (ih hq).2 c ?_⟩
      have he : (joinWith ", ".toList (q :: ids)).getLast? = some _ := List.getLast?_eq_some_getLast htail
      rw [List.getLast?_append, List.getLast?_append, he] at hc
      rwa [he]

/-- A list of ids is read back. -/
theorem readValue_ids {ids : List PyStr} (h : ∀ p ∈ ids, isSafeFactId p = true) :
    readValue (strip ('[' :: joinWith ", ".toList ids ++ [']'])) = .list ids := by
  have hinner : strip (joinWith ", ".toList ids) = joinWith ", ".toList ids :=
    strip_eq_self (fun c hc => (ids_ends h).1 c hc) fun c hc => (ids_ends h).2 c hc
  have hstrip : strip ('[' :: joinWith ", ".toList ids ++ [']']) =
      '[' :: joinWith ", ".toList ids ++ [']'] := strip_line (by decide) (by decide) _
  rw [hstrip, readValue, if_pos ⟨rfl, List.getLast?_concat⟩]
  simp only [List.cons_append, List.drop_one, List.tail_cons, List.dropLast_concat, hinner]
  have hids := splitOn_ids h
  rw [List.filter_map] at hids
  have hsplit : ((joinWith ", ".toList ids).splitOn ',').filter (fun x => decide (strip x ≠ [])) =
      ((joinWith ", ".toList ids).splitOn ',').filter ((fun x => decide (x ≠ [])) ∘ strip) := rfl
  have hmap : ∀ xs : List PyStr, xs.map (fun x => stripQuotes (strip x)) =
      (xs.map strip).map stripQuotes := fun xs => by
    rw [List.map_map]
    rfl
  rw [hsplit, hmap, hids]
  congr 1
  exact (List.map_congr_left fun p hp => stripQuotes_id (h p hp)).trans (List.map_id ids)

end Frontmatter

section Gathered

/-- Lines as they are gathered, each with a line feed. -/
def gathered (ls : List PyStr) : PyStr := ls.flatMap (· ++ ['\n'])

theorem gathered_append (ls ms : List PyStr) : gathered (ls ++ ms) = gathered ls ++ gathered ms :=
  List.flatMap_append

theorem words_gathered (ls : List PyStr) : words (gathered ls) = ls.flatMap words := by
  induction ls with
  | nil => rfl
  | cons l ls ih =>
    have hfeed : gathered (l :: ls) = l ++ '\n' :: gathered ls := by simp [gathered]
    rw [hfeed, words_append_cons (by decide), ih, List.flatMap_cons]

/-- The lines of a text whose line breaks are all line feeds. -/
theorem gathered_lines {w s : PyStr} (hs : Python.Unbroken s) (hne : s = [] → w ≠ [])
    (hb : ∀ c ∈ s, isLineBreak c = true → c = '\n') :
    gathered (splitlinesFrom w s) = w.reverse ++ s ++ ['\n'] := by
  induction s generalizing w with
  | nil =>
    have hw : ¬ w.isEmpty = true := by simpa using hne rfl
    rw [splitlinesFrom, if_neg hw]
    simp [gathered]
  | cons c s ih =>
    have hb' : ∀ d ∈ s, isLineBreak d = true → d = '\n' := fun d hd => hb d (List.mem_cons_of_mem _ hd)
    have hs' (h : s ≠ []) : Python.Unbroken s := hs.tail h
    cases hc : isLineBreak c with
    | true =>
      have hfeed := hb c List.mem_cons_self hc
      subst c
      have hnil : s ≠ [] := by
        rintro rfl
        rw [hs '\n' rfl] at hc
        cases hc
      have h := ih (w := []) (hs' hnil) (fun h => (hnil h).elim) hb'
      have hsplit : splitlines s = splitlinesFrom [] s := rfl
      rw [splitlinesFrom_feed, hsplit]
      have hcons : gathered (w.reverse :: splitlinesFrom [] s) =
          w.reverse ++ ['\n'] ++ gathered (splitlinesFrom [] s) := rfl
      rw [hcons, h]
      simp
    | false =>
      rw [splitlinesFrom_plain hc]
      by_cases hnil : s = []
      · subst hnil
        simp [splitlinesFrom, gathered]
      · rw [ih (hs' hnil) (fun h => (hnil h).elim) hb']
        simp

/-- A stripped text is what its lines gather to, just where all of its line breaks are line feeds. -/
theorem strip_gathered_iff (s : PyStr) : strip (gathered (linesOf (strip s))) = strip s ↔
    ∀ c ∈ strip s, isLineBreak c = true → c = '\n' := by
  constructor
  · intro h c hc hbreak
    rw [← h] at hc
    have hmem : c ∈ gathered (linesOf (strip s)) := mem_of_mem_strip hc
    obtain ⟨l, hl, hcl⟩ := List.mem_flatMap.mp hmem
    rcases List.mem_append.mp hcl with hcl | hcl
    · have hline : isLineBreak c = false := by
        unfold linesOf at hl
        split_ifs at hl
        · rw [List.mem_singleton.mp hl] at hcl
          cases hcl
        · exact splitlines_isLine hl c hcl
      rw [hline] at hbreak
      cases hbreak
    · exact List.mem_singleton.mp hcl
  · intro hb
    by_cases hnil : strip s = []
    · rw [hnil]
      rfl
    · have h := gathered_lines (w := []) (unbroken_strip s) (fun h => (hnil h).elim) hb
      have hlines : linesOf (strip s) = splitlinesFrom [] (strip s) := if_neg hnil
      rw [hlines, h, strip_append_space (by decide)]
      exact strip_strip s

theorem wordsFrom_of_word {w : PyStr} (hw : w ≠ []) (s : PyStr) : wordsFrom w s ≠ [] := by
  have hempty : ¬ w.isEmpty = true := by simpa using hw
  induction s generalizing w with
  | nil =>
    rw [wordsFrom, if_neg hempty]
    exact List.cons_ne_nil _ _
  | cons c s ih =>
    rw [wordsFrom]
    split_ifs
    · exact List.cons_ne_nil _ _
    · exact ih (List.cons_ne_nil _ _) (by simp)

end Gathered

section Sections
variable [FactGraph.Runtime] {fact : Fact}

/-- The lines that start no section. -/
def plainLines (ls : List PyStr) : List PyStr := ls.filter (sectionOf · = none)

/-- Lines that start no section go to the current one. -/
theorem foldl_plain {ls : List PyStr} (h : ∀ l ∈ ls, sectionOf l = none) (secs : Section → PyStr)
    (s : Section) : ls.foldl Reading.line ⟨secs, some s⟩ =
      ⟨Function.update secs s (secs s ++ gathered ls), some s⟩ := by
  induction ls generalizing secs with
  | nil => simp [gathered]
  | cons l ls ih =>
    have hstep : Reading.line ⟨secs, some s⟩ l =
        ⟨Function.update secs s (secs s ++ l ++ ['\n']), some s⟩ := by
      simp only [Reading.line, h l List.mem_cons_self]
    have hgather : gathered (l :: ls) = l ++ ['\n'] ++ gathered ls := rfl
    rw [List.foldl_cons, hstep, ih fun m hm => h m (List.mem_cons_of_mem _ hm), Function.update_self,
      Function.update_idem, hgather]
    simp only [List.append_assoc]

/-- The words of all sections. -/
def wordCount (secs : Section → PyStr) : Nat :=
  (words (secs .statement)).length + (words (secs .proof)).length + (words (secs .intuition)).length

/-- Every line that starts no section is in one, and no other is. -/
theorem foldl_words (ls : List PyStr) (gs : Section → List PyStr) (s : Section) :
    wordCount (ls.foldl Reading.line ⟨fun s => gathered (gs s), some s⟩).secs =
      wordCount (fun s => gathered (gs s)) + ((plainLines ls).flatMap words).length := by
  induction ls generalizing gs s with
  | nil => rfl
  | cons l ls ih =>
    cases hl : sectionOf l with
    | some t =>
      have hstep : Reading.line ⟨fun s => gathered (gs s), some s⟩ l =
          ⟨fun s => gathered (gs s), some t⟩ := by simp only [Reading.line, hl]
      have hplain : plainLines (l :: ls) = plainLines ls :=
        List.filter_cons_of_neg (by simp [hl])
      rw [List.foldl_cons, hstep, ih, hplain]
    | none =>
      have hupdate : Function.update (fun s => gathered (gs s)) s
          (gathered (gs s) ++ l ++ ['\n']) =
          fun t => gathered (Function.update gs s (gs s ++ [l]) t) := by
        funext t
        by_cases ht : t = s
        · subst ht
          simp [gathered]
        · rw [Function.update_of_ne ht, Function.update_of_ne ht]
      have hstep : Reading.line ⟨fun s => gathered (gs s), some s⟩ l =
          ⟨fun t => gathered (Function.update gs s (gs s ++ [l]) t), some s⟩ := by
        rw [← hupdate]
        simp only [Reading.line, hl]
      have hplain : plainLines (l :: ls) = l :: plainLines ls := List.filter_cons_of_pos (by simp [hl])
      rw [List.foldl_cons, hstep, ih, hplain, List.flatMap_cons, List.length_append, ← Nat.add_assoc]
      congr 1
      simp only [wordCount, words_gathered]
      cases s <;> simp [Function.update] <;> omega

/-- A line that starts a section has words in it. -/
theorem words_of_sectionOf {l : PyStr} {s : Section} (h : sectionOf l = some s) : words l ≠ [] := by
  obtain ⟨word, hword, _⟩ := Option.bind_eq_some_iff.mp h
  unfold headingWord at hword
  split at hword
  · next c cs =>
    have hspace : isSpace '#' = false := by decide
    rw [words, wordsFrom, if_neg (by rw [hspace]; decide)]
    exact wordsFrom_of_word (List.cons_ne_nil _ _) _
  · cases hword

/-- Where the lines that start no section have all the words, no line starts one. -/
theorem plainLines_words (ls : List PyStr) :
    ((plainLines ls).flatMap words).length ≤ (ls.flatMap words).length ∧
      (((plainLines ls).flatMap words).length = (ls.flatMap words).length →
        ∀ l ∈ ls, sectionOf l = none) := by
  induction ls with
  | nil => exact ⟨le_refl _, fun _ l hl => by cases hl⟩
  | cons l ls ih =>
    obtain ⟨hle, heq⟩ := ih
    cases hl : sectionOf l with
    | some s =>
      have hplain : plainLines (l :: ls) = plainLines ls := List.filter_cons_of_neg (by simp [hl])
      have hpos := List.length_pos_of_ne_nil (words_of_sectionOf hl)
      rw [hplain, List.flatMap_cons, List.length_append]
      exact ⟨by omega, fun h => by omega⟩
    | none =>
      have hplain : plainLines (l :: ls) = l :: plainLines ls := List.filter_cons_of_pos (by simp [hl])
      rw [hplain, List.flatMap_cons, List.flatMap_cons, List.length_append, List.length_append]
      refine ⟨by omega, fun h m hm => ?_⟩
      rcases List.mem_cons.mp hm with rfl | hm
      · exact hl
      · exact heq (by omega) m hm

/-- The text of a section as it was added. -/
def textOf (fact : Fact) : Section → PyStr
  | .statement => fact.statement
  | .proof => fact.proof
  | .intuition => fact.intuition

/-- The lines of the sections, without the first title. -/
def pageLines (fact : Fact) : List PyStr :=
  (linesOf (strip fact.statement) ++ [[]]) ++
    "## proof".toList :: (linesOf (strip fact.proof) ++ intuitionLines fact)

theorem readSections_page (fact : Fact) : readSections (universalNewlines (bodyText fact)) =
    ((pageLines fact).foldl Reading.line ⟨fun _ => [], some .statement⟩).secs := by
  have hlines : splitlines (bodyText fact) = "## statement".toList :: pageLines fact := by
    have hparts : bodyParts fact = [] :: (bodyParts fact).drop 1 := rfl
    have hbody := bodyLines fact
    rw [hparts, List.flatMap_cons] at hbody
    rw [bodyText, splitlines_join fun p hp => bodyParts_unbroken fact p (List.mem_of_mem_drop hp)]
    have hall : linesOf [] ++ ((bodyParts fact).drop 1).flatMap linesOf =
        [] :: "## statement".toList :: pageLines fact := by
      rw [hbody, pageLines]
      simp only [List.append_assoc, List.cons_append, List.nil_append]
    exact (List.cons.inj hall).2
  have hfirst : Reading.line ⟨fun _ => [], none⟩ "## statement".toList =
      ⟨fun _ => [], some .statement⟩ := rfl
  rw [readSections, splitlines_universalNewlines, hlines, List.foldl_cons, hfirst]

/-- The words of the page that are under no title. -/
theorem plainLines_page (fact : Fact) : ((plainLines (pageLines fact)).flatMap words).length =
    ((plainLines (linesOf (strip (textOf fact .statement)))).flatMap words).length +
      ((plainLines (linesOf (strip (textOf fact .proof)))).flatMap words).length +
      ((plainLines (linesOf (strip (textOf fact .intuition)))).flatMap words).length := by
  have happ : ∀ ls ms, plainLines (ls ++ ms) = plainLines ls ++ plainLines ms :=
    fun ls ms => List.filter_append ..
  have hblank : plainLines [[]] = [[]] := rfl
  have hproof : ∀ ls, plainLines ("## proof".toList :: ls) = plainLines ls := fun ls => rfl
  have hintuition : (plainLines (intuitionLines fact)).flatMap words =
      (plainLines (linesOf (strip fact.intuition))).flatMap words := by
    unfold intuitionLines
    split_ifs with hi
    · rfl
    · rw [not_not] at hi
      rw [hi]
      rfl
  have hnone : [[]].flatMap words = [] := rfl
  rw [pageLines, happ, happ, hproof, happ, hblank, List.flatMap_append, List.flatMap_append,
    List.flatMap_append, hintuition, hnone, List.append_nil, List.length_append, List.length_append,
    ← Nat.add_assoc]
  rfl

/-- The page shows a text as it was added: no line of it starts a section, and its line breaks are all
line feeds. -/
def PlainText (text : PyStr) : Prop :=
  (∀ l ∈ splitlines (strip text), sectionOf l = none) ∧
    ∀ c ∈ strip text, isLineBreak c = true → c = '\n'

/-- The sections of the page, where no line of a text starts one. -/
theorem readSections_plain (h : ∀ s, ∀ l ∈ linesOf (strip (textOf fact s)), sectionOf l = none)
    (s : Section) : strip (readSections (universalNewlines (bodyText fact)) s) =
      strip (gathered (linesOf (strip (textOf fact s)))) := by
  have hblank : sectionOf [] = none := rfl
  have hfeed : ∀ ls : List PyStr, strip (gathered (ls ++ [[]])) = strip (gathered ls) := by
    intro ls
    rw [gathered_append]
    exact strip_append_space (by decide)
  have hS : ∀ l ∈ linesOf (strip fact.statement) ++ [[]], sectionOf l = none := by
    intro l hl
    rcases List.mem_append.mp hl with hl | hl
    · exact h .statement l hl
    · rw [List.mem_singleton.mp hl]
      exact hblank
  have hP' : ∀ l ∈ linesOf (strip fact.proof), sectionOf l = none := h .proof
  have hI : ∀ l ∈ linesOf (strip fact.intuition), sectionOf l = none := h .intuition
  have hproof : ∀ secs : Section → PyStr, Reading.line ⟨secs, some .statement⟩ "## proof".toList =
      ⟨secs, some .proof⟩ := fun secs => rfl
  rw [readSections_page, pageLines, List.foldl_append, foldl_plain hS, List.foldl_cons, hproof]
  by_cases hi : strip fact.intuition ≠ []
  · have hP : ∀ l ∈ linesOf (strip fact.proof) ++ [[]], sectionOf l = none := by
      intro l hl
      rcases List.mem_append.mp hl with hl | hl
      · exact hP' l hl
      · rw [List.mem_singleton.mp hl]
        exact hblank
    have hlines : linesOf (strip fact.proof) ++ intuitionLines fact =
        (linesOf (strip fact.proof) ++ [[]]) ++
          "## intuition".toList :: linesOf (strip fact.intuition) := by
      rw [intuitionLines, if_pos hi]
      simp only [List.append_assoc, List.cons_append, List.nil_append]
    have htitle : ∀ secs : Section → PyStr, Reading.line ⟨secs, some .proof⟩ "## intuition".toList =
        ⟨secs, some .intuition⟩ := fun secs => rfl
    rw [hlines, List.foldl_append, foldl_plain hP, List.foldl_cons, htitle, foldl_plain hI]
    cases s
    · simpa [Function.update, textOf] using hfeed _
    · simpa [Function.update, textOf] using hfeed _
    · simp [Function.update, textOf]
  · have hnone : intuitionLines fact = [] := if_neg hi
    rw [hnone, List.append_nil, foldl_plain hP']
    cases s
    · simpa [Function.update, textOf] using hfeed _
    · simp [Function.update, textOf]
    · rw [not_not] at hi
      simp [Function.update, textOf, hi]
      rfl

/-- The page shows the three texts as they were added just where each of them is plain. -/
theorem sections_exact (fact : Fact) :
    (∀ s, strip (readSections (universalNewlines (bodyText fact)) s) = strip (textOf fact s)) ↔
      ∀ s, PlainText (textOf fact s) := by
  have hlines : ∀ s, (∀ l ∈ linesOf (strip (textOf fact s)), sectionOf l = none) ↔
      ∀ l ∈ splitlines (strip (textOf fact s)), sectionOf l = none := by
    intro s
    unfold linesOf
    split_ifs with hnil
    · rw [hnil]
      refine ⟨fun _ => by rintro l ⟨⟩, fun _ l hl => ?_⟩
      rw [List.mem_singleton.mp hl]
      rfl
    · exact Iff.rfl
  constructor
  · intro h
    have hcount := foldl_words (pageLines fact) (fun _ => []) .statement
    have hsecs : (fun s => gathered ((fun _ => []) s : List PyStr)) = fun _ : Section => ([] : PyStr) := rfl
    have hzero : wordCount (fun _ => []) = 0 := rfl
    rw [hsecs, ← readSections_page, plainLines_page, hzero, Nat.zero_add] at hcount
    have hshown : ∀ s, words (readSections (universalNewlines (bodyText fact)) s) =
        (linesOf (strip (textOf fact s))).flatMap words := by
      intro s
      rw [← words_strip, h s, words_linesOf]
    have hall : ∀ s, ∀ l ∈ linesOf (strip (textOf fact s)), sectionOf l = none := by
      have hS := plainLines_words (linesOf (strip (textOf fact .statement)))
      have hP := plainLines_words (linesOf (strip (textOf fact .proof)))
      have hI := plainLines_words (linesOf (strip (textOf fact .intuition)))
      rw [wordCount, hshown, hshown, hshown] at hcount
      intro s
      cases s
      · exact hS.2 (by omega)
      · exact hP.2 (by omega)
      · exact hI.2 (by omega)
    intro s
    refine ⟨(hlines s).mp (hall s), (strip_gathered_iff _).mp ?_⟩
    rw [← readSections_plain hall, h s]
  · intro h s
    rw [readSections_plain fun s => (hlines s).mpr (h s).1]
    exact (strip_gathered_iff _).mpr (h s).2

/-- What the dashboard makes of a fact's file. -/
theorem parseFact_page (h : fact.Guarded) : parseFact (universalNewlines (serializeFact fact)) =
    { factId := .text fact.factId
      problemId := readValue fact.problemId
      author := readValue (strip fact.author)
      predecessors := .list fact.predecessors
      statement := strip (readSections (universalNewlines (bodyText fact)) .statement)
      proof := strip (readSections (universalNewlines (bodyText fact)) .proof)
      intuition := strip (readSections (universalNewlines (bodyText fact)) .intuition) } := by
  obtain ⟨_, hproblem, _⟩ := checkFields_ok h.fields
  have hfm := frontmatter_keyLines fact
  have hkeys : splitlines (joinWith ['\n'] (keyLines fact)) = keyLines fact :=
    splitlines_joinLines (List.cons_ne_nil _ _) fun l hl => (keyLines_lines h l hl).1
  have hhex : isHexOf 16 fact.factId = true := by
    rw [h.factId]
    exact factId_isHexOf _ _ _ _ _
  have hid : readValue (strip fact.factId) = .text fact.factId := by
    obtain ⟨hlen, hchars⟩ := isHexOf_chars hhex
    rw [strip_of_noSpace fun c hc => (hchars c hc).2.1, readValue, if_neg]
    rintro ⟨hhead, _⟩
    have hm := List.mem_of_mem_head? hhead
    simp only [isHexOf, Bool.and_eq_true, List.all_eq_true] at hhex
    have hx := hhex.2 _ hm
    revert hx
    decide
  have hpreds : readValue (strip ('[' :: joinWith ", ".toList fact.predecessors ++ [']'])) =
      .list fact.predecessors := readValue_ids h.predecessors
  rw [hid, hpreds, hproblem] at hfm
  have hid' : (frontmatter (keyLines fact)).lookup "fact_id".toList = some (.text fact.factId) := by
    rw [hfm]
    rfl
  have hproblem' : (frontmatter (keyLines fact)).lookup "problem_id".toList =
      some (readValue fact.problemId) := by
    rw [hfm]
    rfl
  have hauthor' : (frontmatter (keyLines fact)).lookup "author".toList =
      some (readValue (strip fact.author)) := by
    rw [hfm]
    rfl
  have hpreds' : (frontmatter (keyLines fact)).lookup "predecessors".toList =
      some (.list fact.predecessors) := by
    rw [hfm]
    rfl
  have hlist : (if (Field.list fact.predecessors).isTrue then Field.list fact.predecessors
      else .list []) = .list fact.predecessors := by
    split_ifs with htrue
    · rfl
    · have hnil : fact.predecessors = [] := by simpa [Field.isTrue] using htrue
      rw [hnil]
  rw [parseFact, matchFrontmatter_page h]
  simp only [Option.getD_some, hkeys, hid', hproblem', hauthor', hpreds', hlist]

end Sections
end Danus.Observability
