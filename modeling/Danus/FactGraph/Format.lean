import Danus.FactGraph.Fact
import Danus.Lib.JsonRoundTrip
import Danus.Lib.JsonText

/-! The file of a fact is read back: frontmatter, statement and proof. -/
namespace Danus.FactGraph
open Python

/-- A fact as `_add_unlocked` makes it: its fields pass the guards, and its ids are computed. -/
structure Fact.Guarded (fact : Fact) : Prop where
  fields : checkFields fact.problemId fact.author fact.statement fact.intuition fact.predecessors =
    .ok ()
  predecessors : ∀ p ∈ fact.predecessors, isSafeFactId p = true
  factId : fact.factId = computeFactId fact.problemId fact.predecessors fact.glossaryIntroduces
    fact.statement fact.proof
  factIdentity : isHexOf 64 fact.factIdentity = true

/-- A text of one line. -/
def IsLine (s : PyStr) : Prop := ∀ c ∈ s, isLineBreak c = false

section Characters
variable {c : Char} {s t : PyStr}

theorem not_isLineBreak_of_isPlain (hc : Json.isPlain c = true) : isLineBreak c = false := by
  simp only [Json.isPlain, Bool.and_eq_true, decide_eq_true_eq] at hc
  rw [← Bool.not_eq_true]
  simp only [isLineBreak, Bool.or_eq_true, Bool.and_eq_true, decide_eq_true_eq, beq_iff_eq]
  omega

theorem isLine_of_plain (hs : ∀ c ∈ s, Json.isPlain c = true) : IsLine s :=
  fun c hc => not_isLineBreak_of_isPlain (hs c hc)

theorem IsLine.append (hs : IsLine s) (ht : IsLine t) : IsLine (s ++ t) :=
  Json.forall_mem_append hs ht

theorem isAlnumAscii_plain (hc : isAlnumAscii c = true) :
    Json.isPlain c = true ∧ isSpace c = false ∧ c ≠ ',' := by
  have h0 : ('0' : Char).toNat = 48 := rfl
  have h9 : ('9' : Char).toNat = 57 := rfl
  have ha : ('a' : Char).toNat = 97 := rfl
  have hz : ('z' : Char).toNat = 122 := rfl
  have hA : ('A' : Char).toNat = 65 := rfl
  have hZ : ('Z' : Char).toNat = 90 := rfl
  have hle (a b : Char) : a ≤ b ↔ a.toNat ≤ b.toNat := Iff.rfl
  simp only [isAlnumAscii, Bool.or_eq_true, Bool.and_eq_true, decide_eq_true_eq, hle, h0, h9, ha, hz,
    hA, hZ] at hc
  refine ⟨?_, ?_, ?_⟩
  · simp only [Json.isPlain, Bool.and_eq_true, decide_eq_true_eq]
    omega
  · rw [← Bool.not_eq_true]
    simp only [isSpace, Bool.or_eq_true, Bool.and_eq_true, decide_eq_true_eq, beq_iff_eq]
    omega
  · rintro rfl
    revert hc
    decide

theorem isSafeFactId_chars (hs : isSafeFactId s = true) :
    s ≠ [] ∧ ∀ c ∈ s, Json.isPlain c = true ∧ isSpace c = false ∧ c ≠ ',' := by
  cases s with
  | nil => cases hs
  | cons d s =>
    simp only [isSafeFactId, Bool.and_eq_true, List.all_eq_true, Bool.or_eq_true, beq_iff_eq] at hs
    refine ⟨List.cons_ne_nil _ _, fun c hc => ?_⟩
    rcases List.mem_cons.mp hc with rfl | hc
    · exact isAlnumAscii_plain hs.1
    · rcases hs.2 c hc with ((h | rfl) | rfl) | rfl
      · exact isAlnumAscii_plain h
      all_goals decide

theorem isAlnumAscii_of_isHex (hc : isHex c = true) : isAlnumAscii c = true := by
  simp only [isHex, isAlnumAscii, Bool.or_eq_true, Bool.and_eq_true, decide_eq_true_eq] at hc ⊢
  rcases hc with hc | ⟨ha, hf⟩
  · exact .inl (.inl hc)
  · exact .inl (.inr ⟨ha, Char.le_trans hf (by decide)⟩)

/-- A computed id is a safe path segment. -/
theorem isSafeFactId_of_isHexOf {n : Nat} {s : PyStr} (h : isHexOf (n + 1) s = true) : isSafeFactId s = true := by
  simp only [isHexOf, Bool.and_eq_true, beq_iff_eq, List.all_eq_true] at h
  obtain ⟨c, cs, rfl⟩ := List.exists_cons_of_ne_nil (List.ne_nil_of_length_eq_add_one h.1)
  rw [isSafeFactId, Bool.and_eq_true, List.all_eq_true]
  refine ⟨isAlnumAscii_of_isHex (h.2 c List.mem_cons_self), fun d hd => ?_⟩
  rw [isAlnumAscii_of_isHex (h.2 d (List.mem_cons_of_mem c hd)), Bool.true_or, Bool.true_or, Bool.true_or]

theorem isHexOf_chars {n : Nat} (hs : isHexOf n s = true) :
    s.length = n ∧ ∀ c ∈ s, Json.isPlain c = true ∧ isSpace c = false ∧ c ≠ ',' := by
  simp only [isHexOf, Bool.and_eq_true, beq_iff_eq, List.all_eq_true] at hs
  exact ⟨hs.1, fun c hc => isAlnumAscii_plain (isAlnumAscii_of_isHex (hs.2 c hc))⟩

end Characters

section Headings
variable {c : Char} {line title : PyStr} {lines rest : List PyStr}

/-- A line that starts with neither white space nor the first character of the title has another
heading. -/
theorem heading_ne (hc : isSpace c = false) (ht : title.head? ≠ some c.toLower) :
    heading (c :: line) ≠ title := by
  obtain ⟨t, hs⟩ := strip_cons hc line
  rintro rfl
  rw [heading, hs] at ht
  exact ht rfl

theorem afterHeading_skip (h : ∀ l ∈ lines, heading l ≠ title) :
    afterHeading title (lines ++ rest) = afterHeading title rest := by
  rw [afterHeading, List.dropWhile_append_of_pos]
  · rfl
  · intro l hl
    simpa using h l hl

theorem afterHeading_cons (h : heading line = title) : afterHeading title (line :: rest) = rest := by
  rw [afterHeading, List.dropWhile_cons_of_neg (by simp [h])]
  rfl

/-- The lines before the last heading, where no line after it has the same one. -/
theorem beforeLast_append (h : heading line = title) (hrest : ∀ l ∈ rest, heading l ≠ title) :
    beforeLast title (lines ++ line :: rest) = lines := by
  have hrev : (lines ++ line :: rest).reverse = rest.reverse ++ (line :: lines.reverse) := by simp
  rw [beforeLast, hrev, List.dropWhile_append_of_pos, List.dropWhile_cons_of_neg (by simp [h])]
  · simp
  · intro l hl
    simpa using hrest l (List.mem_reverse.mp hl)

/-- A heading is on one of the lines of a stripped text just when it is on one of the text's. -/
theorem heading_linesOf {text : PyStr} (ht : title ≠ [])
    (h : (splitlines text).any (fun l => heading l == title) = false) :
    ∀ l ∈ linesOf (strip text), heading l ≠ title := by
  intro l hl he
  have hne : strip l ≠ [] := by
    intro hs
    rw [heading, hs] at he
    exact ht he.symm
  have hm : strip l ∈ trimmedLines (splitlines text) := by
    rw [← trimmedLines_strip, ← trimmedLines_linesOf]
    exact List.mem_filter.mpr ⟨List.mem_map_of_mem hl, by simpa using hne⟩
  obtain ⟨l', hl', hs⟩ := List.mem_map.mp (List.mem_filter.mp hm).1
  rw [List.any_eq_false] at h
  refine h l' hl' (beq_iff_eq.mpr ?_)
  rw [← he, heading, heading, hs]

end Headings

section ParseLine

theorem startsWith_cons_ne {c d : Char} (h : c ≠ d) (p s : PyStr) :
    startsWith (c :: p) (d :: s) = false := by
  simp [startsWith, List.isPrefixOf, h]

/-- A line that ends in a bracket is stripped. -/
theorem strip_line {c d : Char} (hc : isSpace c = false) (hd : isSpace d = false) (s : PyStr) :
    strip (c :: s ++ [d]) = c :: s ++ [d] := by
  refine strip_eq_self (fun e he => ?_) fun e he => ?_
  · rw [List.cons_append, List.head?_cons, Option.mem_some] at he
    rwa [← he]
  · rw [List.getLast?_concat, Option.mem_some] at he
    rwa [← he]

/-- The ids between the brackets are read back. -/
theorem splitOn_ids {ids : List PyStr} (h : ∀ p ∈ ids, isSafeFactId p = true) :
    (((joinWith ", ".toList ids).splitOn ',').map strip).filter (· ≠ []) = ids := by
  have hspace : ∀ s : PyStr, ((' ' :: s).splitOn ',').map strip = (s.splitOn ',').map strip := by
    intro s
    rw [List.splitOn_cons_eq_if_modifyHead, if_neg (by decide)]
    obtain ⟨first, others, hs⟩ := List.exists_cons_of_ne_nil (List.splitOn_ne_nil ',' s)
    rw [hs, List.modifyHead_cons, List.map_cons, List.map_cons, strip_cons_space (by decide)]
  induction ids with
  | nil => rfl
  | cons p ids ih =>
    obtain ⟨hne, hchars⟩ := isSafeFactId_chars (h p List.mem_cons_self)
    have hcomma : ',' ∉ p := fun hm => (hchars _ hm).2.2 rfl
    have hstrip : strip p = p := strip_of_noSpace fun c hc => (hchars c hc).2.1
    have ih' := ih fun q hq => h q (List.mem_cons_of_mem _ hq)
    cases ids with
    | nil =>
      rw [joinWith_singleton, List.splitOn_eq_singleton hcomma, List.map_cons, hstrip]
      simp [hne]
    | cons q ids =>
      have hjoin : joinWith ", ".toList (p :: q :: ids) =
          p ++ ',' :: ' ' :: joinWith ", ".toList (q :: ids) := joinWith_cons_cons _ _ _ _
      rw [hjoin, List.splitOn_append_cons_self_of_not_mem hcomma, List.map_cons, hspace, hstrip,
        List.filter_cons_of_pos (by simpa using hne), ih']

/-- The text of an object starts and ends with a brace. -/
theorem dumps_obj (style : Json.Style) (items : List (PyStr × Json)) :
    ∃ t, (Json.obj items).dumps style = '\x7b' :: t ++ ['\x7d'] := by
  rw [Json.dumps]
  exact ⟨_, rfl⟩

theorem dumps_arr (style : Json.Style) (items : List Json) :
    ∃ t, (Json.arr items).dumps style = '[' :: t ++ [']'] := by
  rw [Json.dumps]
  exact ⟨_, rfl⟩

variable [Runtime] {fm : Frontmatter} {st : Frontmatter × Bool}

/-- A line that starts like no key is passed over. -/
theorem parseLine_other {c : Char} (hc : isSpace c = false)
    (hkey : c ≠ 'f' ∧ c ≠ 'p' ∧ c ≠ 'g' ∧ c ≠ 'e') (rest : PyStr) :
    parseLine (fm, false) (c :: rest) = (fm, false) := by
  obtain ⟨hf, hp, hg, he⟩ := hkey
  obtain ⟨t, ht⟩ := strip_cons hc rest
  have h0 : startsWith "predecessors:".toList (c :: t) = false := startsWith_cons_ne (Ne.symm hp) _ _
  have hnone : predecessorsOf (c :: t) = none := by
    rw [predecessorsOf, h0, if_neg (by decide)]
  have h1 : startsWith "fact_id:".toList (c :: rest) = false := startsWith_cons_ne (Ne.symm hf) _ _
  have h2 : startsWith "problem_id:".toList (c :: rest) = false := startsWith_cons_ne (Ne.symm hp) _ _
  have h3 : startsWith "glossary_introduces:".toList (c :: t) = false :=
    startsWith_cons_ne (Ne.symm hg) _ _
  have h4 : startsWith "external_refs:".toList (c :: t) = false := startsWith_cons_ne (Ne.symm he) _ _
  have h5 : startsWith "fact_identity:".toList (c :: rest) = false := startsWith_cons_ne (Ne.symm hf) _ _
  simp only [parseLine, ht, hnone, h1, h2, h3, h4, h5, Bool.false_eq_true, if_false]

theorem parseLine_factId (x : PyStr) : parseLine st ("fact_id: ".toList ++ x) =
    ({ st.1 with factId := strip x }, st.2) := by
  have h : afterColon ("fact_id: ".toList ++ x) = strip x := strip_cons_space (by decide)
  rw [← h]
  rfl

theorem parseLine_problemId (x : PyStr) : parseLine st ("problem_id: ".toList ++ x) =
    ({ st.1 with problemId := strip x }, st.2) := by
  have h : afterColon ("problem_id: ".toList ++ x) = strip x := strip_cons_space (by decide)
  rw [← h]
  rfl

theorem parseLine_identity (x : PyStr) : parseLine (fm, false) ("fact_identity: ".toList ++ x) =
    ({ fm with factIdentity := some (strip x) }, false) := by
  have h : afterColon ("fact_identity: ".toList ++ x) = strip x := strip_cons_space (by decide)
  obtain ⟨t, ht⟩ := strip_cons (c := 'f') (by decide) ("act_identity: ".toList ++ x)
  have hs : strip ("fact_identity: ".toList ++ x) = 'f' :: t := ht
  have hnone : predecessorsOf ('f' :: t) = none := rfl
  have h3 : startsWith "glossary_introduces:".toList ('f' :: t) = false := rfl
  have h4 : startsWith "external_refs:".toList ('f' :: t) = false := rfl
  have h1 : startsWith "fact_id:".toList ("fact_identity: ".toList ++ x) = false := rfl
  have h2 : startsWith "problem_id:".toList ("fact_identity: ".toList ++ x) = false := rfl
  have h5 : startsWith "fact_identity:".toList ("fact_identity: ".toList ++ x) = true := rfl
  simp only [parseLine, hs, hnone, h1, h2, h3, h4, h5, h, Bool.false_eq_true, if_false, if_true]

theorem parseLine_predecessors {ids : List PyStr} (h : ∀ p ∈ ids, isSafeFactId p = true) :
    parseLine st ("predecessors: [".toList ++ joinWith ", ".toList ids ++ "]".toList) =
      ({ st.1 with predecessors := ids }, false) := by
  have hs : strip ("predecessors: [".toList ++ joinWith ", ".toList ids ++ "]".toList) =
      "predecessors: [".toList ++ joinWith ", ".toList ids ++ "]".toList :=
    strip_line (c := 'p') (d := ']') (by decide) (by decide) _
  have hids : predecessorsOf ("predecessors: [".toList ++ joinWith ", ".toList ids ++ "]".toList) =
      some ids := by
    have hlead : lstrip (("predecessors: [".toList ++ joinWith ", ".toList ids ++ "]".toList).drop
        "predecessors:".length) = '[' :: (joinWith ", ".toList ids ++ [']']) :=
      lstrip_cons_space (by decide)
    have hstart : startsWith "predecessors:".toList
        ("predecessors: [".toList ++ joinWith ", ".toList ids ++ "]".toList) = true := rfl
    rw [predecessorsOf, if_pos hstart, hlead]
    simp only [List.getLast?_concat, if_true, List.dropLast_concat, splitOn_ids h]
  have h1 : startsWith "fact_id:".toList
      ("predecessors: [".toList ++ joinWith ", ".toList ids ++ "]".toList) = false := rfl
  have h2 : startsWith "problem_id:".toList
      ("predecessors: [".toList ++ joinWith ", ".toList ids ++ "]".toList) = false := rfl
  simp only [parseLine, hs, hids, h1, h2, Bool.false_eq_true, if_false]

/-- The glossary is read back, sorted by its terms. -/
theorem parseLine_glossary {terms : List (PyStr × PyStr)} (hn : (terms.map Prod.fst).Nodup) :
    parseLine st ("glossary_introduces: ".toList ++ glossaryText terms) =
      ({ st.1 with
        glossaryIntroduces := Json.sortByKey terms
        glossaryEncodes := true }, false) := by
  obtain ⟨t, ht⟩ := dumps_obj (Json.spaced true false)
    ((Json.sortByKey terms).map fun kv => (kv.1, .str kv.2))
  have htext : glossaryText terms = '\x7b' :: t ++ ['\x7d'] := ht
  have hdistinct : (Json.ofDict (Json.sortByKey terms)).distinctKeys = true :=
    Json.distinctKeys_ofDict (((Json.sortByKey_perm terms).map _).nodup_iff.mpr hn)
  have hparse : Json.parse (glossaryText terms) = some (Json.ofDict (Json.sortByKey terms)) := by
    have h := Json.parse_dumps true hdistinct (List.forall_mem_nil fun c => Json.isJsonSpace c = true)
    rwa [List.append_nil] at h
  have hs : strip ("glossary_introduces: ".toList ++ glossaryText terms) =
      "glossary_introduces: ".toList ++ glossaryText terms := by
    rw [htext]
    exact strip_line (c := 'g') (d := '\x7d') (by decide) (by decide)
      ("lossary_introduces: ".toList ++ '\x7b' :: t)
  have hpayload : strip (("glossary_introduces: ".toList ++ glossaryText terms).drop
      "glossary_introduces:".length) = glossaryText terms := by
    have hlead : strip (' ' :: glossaryText terms) = glossaryText terms := by
      rw [strip_cons_space (by decide), htext]
      exact strip_line (c := '\x7b') (d := '\x7d') (by decide) (by decide) _
    exact hlead
  have hnone : predecessorsOf ("glossary_introduces: ".toList ++ glossaryText terms) = none := rfl
  have h1 : startsWith "fact_id:".toList ("glossary_introduces: ".toList ++ glossaryText terms) =
    false := rfl
  have h2 : startsWith "problem_id:".toList ("glossary_introduces: ".toList ++ glossaryText terms) =
    false := rfl
  have h3 : startsWith "glossary_introduces:".toList
    ("glossary_introduces: ".toList ++ glossaryText terms) = true := rfl
  have hvalues : ∀ l : List (PyStr × PyStr), (l.map fun kv => (kv.1, Json.str kv.2)).map
      (fun kv => (kv.1, strOf kv.2)) = l := by
    intro l
    rw [List.map_map]
    exact List.map_id l
  simp only [parseLine, hs, hnone, h1, h2, h3, hpayload, hparse, Bool.false_eq_true, if_false, if_true,
    Json.ofDict, hvalues]

theorem parseLine_refs (refs : List ExternalRef) : parseLine st
    ("external_refs: ".toList ++ (refsJson refs).dumps (Json.spaced true false)) =
      ({ st.1 with externalRefs := refsJson refs }, false) := by
  obtain ⟨t, ht⟩ := dumps_arr (Json.spaced true false) (refs.map fun r => .obj r.items)
  have htext : (refsJson refs).dumps (Json.spaced true false) = '[' :: t ++ [']'] := ht
  have hdistinct : (refsJson refs).distinctKeys = true := by
    have hitems : ∀ refs : List ExternalRef,
        Json.distinctItems (refs.map fun r => .obj r.items) = true := by
      intro refs
      induction refs with
      | nil => rfl
      | cons r refs ih => rw [List.map_cons, Json.distinctItems, r.distinct, ih, Bool.true_and]
    rw [refsJson, Json.distinctKeys, hitems]
  have hparse : Json.parse ((refsJson refs).dumps (Json.spaced true false)) = some (refsJson refs) := by
    have h := Json.parse_dumps true hdistinct (List.forall_mem_nil fun c => Json.isJsonSpace c = true)
    rwa [List.append_nil] at h
  generalize (refsJson refs).dumps (Json.spaced true false) = text at htext hparse ⊢
  have hs : strip ("external_refs: ".toList ++ text) = "external_refs: ".toList ++ text := by
    rw [htext]
    exact strip_line (c := 'e') (d := ']') (by decide) (by decide) ("xternal_refs: ".toList ++ '[' :: t)
  have hpayload : strip (("external_refs: ".toList ++ text).drop "external_refs:".length) = text := by
    have hlead : strip (' ' :: text) = text := by
      rw [strip_cons_space (by decide), htext]
      exact strip_line (c := '[') (d := ']') (by decide) (by decide) _
    exact hlead
  have hnone : predecessorsOf ("external_refs: ".toList ++ text) = none := rfl
  have h1 : startsWith "fact_id:".toList ("external_refs: ".toList ++ text) = false := rfl
  have h2 : startsWith "problem_id:".toList ("external_refs: ".toList ++ text) = false := rfl
  have h3 : startsWith "glossary_introduces:".toList ("external_refs: ".toList ++ text) = false := rfl
  have h4 : startsWith "external_refs:".toList ("external_refs: ".toList ++ text) = true := rfl
  simp only [parseLine, hs, hnone, h1, h2, h3, h4, hpayload, hparse, Bool.false_eq_true, if_false,
    if_true, Option.getD_some]

end ParseLine

end Danus.FactGraph
