import Danus.FactGraph.RoundTrip
import Danus.Lib.Joined
import Danus.Lib.JsonPieces

/-! The file of a fact after its references were written anew: which lines are its frontmatter. -/
namespace Danus.FactGraph
open Python

/-- The line that `set_external_refs` writes; it keeps characters that are not ASCII. -/
def refsLine (refs : List ExternalRef) : PyStr :=
  "external_refs: ".toList ++ (refsJson refs).dumps (Json.spaced false false)

/-- The lines with the first `external_refs:` line replaced, or with one more at their end. -/
def replaceRefs (newLine : PyStr) : List PyStr → List PyStr
  | [] => [newLine]
  | line :: lines =>
    if startsWith "external_refs:".toList line then newLine :: lines else line :: replaceRefs newLine lines

/-- `_set_external_refs_unlocked`, on the text of an active fact's file. -/
def setExternalRefs (factId : PyStr) (refs : List ExternalRef) (file : PyStr) : Except GraphError PyStr :=
  let malformed := .error (.value ("malformed fact file (no frontmatter close): ".toList ++ factId))
  match splitlines (universalNewlines file) with
  | [] => malformed
  | first :: lines =>
    let (front, rest) := lines.span (strip · ≠ "---".toList)
    if rest = [] then malformed
    else .ok (joinWith ['\n'] (first :: replaceRefs (refsLine refs) front ++ rest) ++ ['\n'])

/-- A fact's file as `add` and `set_external_refs` leave it, with the references that were set, last first. -/
inductive Written (fact : Fact) : List (List ExternalRef) → PyStr → Prop
  | add : Written fact [] (serializeFact fact)
  | set {calls : List (List ExternalRef)} {file file' : PyStr} (h : Written fact calls file)
      (refs : List ExternalRef) (hset : setExternalRefs fact.factId refs file = .ok file') :
      Written fact (refs :: calls) file'

/-- The lines of the frontmatter between its first mark and the references. -/
def keyLinesBefore (fact : Fact) : List PyStr := (keyLines fact).take 7

/-- The lines that the references take up; what a call does not replace of the lines before stays. -/
def refsLines (fact : Fact) : List (List ExternalRef) → List PyStr
  | [] => ["external_refs: ".toList ++ (refsJson fact.externalRefs).dumps (Json.spaced true false)]
  | refs :: calls => linesOf (refsLine refs) ++ (refsLines fact calls).drop 1

/-- The lines of the file. -/
def fileLines (fact : Fact) (calls : List (List ExternalRef)) : List PyStr :=
  "---".toList :: (keyLinesBefore fact ++ (refsLines fact calls ++ "---".toList :: (bodyParts fact).flatMap linesOf))

section Written
variable {fact : Fact} {calls : List (List ExternalRef)} {file : PyStr} {refs : List ExternalRef}

/-- A line begins with what was read of it. -/
theorem splitlinesFrom_head {line : PyStr} (hl : line ≠ []) (s : PyStr) :
    ∃ t rest, splitlinesFrom line s = (line.reverse ++ t) :: rest := by
  induction line, s using splitlinesFrom.induct with
  | case1 line he => exact absurd (List.isEmpty_iff.mp he) hl
  | case2 line he =>
    refine ⟨[], [], ?_⟩
    rw [splitlinesFrom, if_neg he, List.append_nil]
  | case3 line cs ih => exact ⟨[], splitlines cs, by rw [splitlinesFrom, List.append_nil, splitlines]⟩
  | case4 line c cs hcrlf hc ih =>
    refine ⟨[], splitlines cs, ?_⟩
    rw [splitlinesFrom.eq_3 line c cs hcrlf, if_pos hc, List.append_nil, splitlines]
  | case5 line c cs hcrlf hc ih =>
    obtain ⟨t, rest, he⟩ := ih (List.cons_ne_nil c line)
    refine ⟨c :: t, rest, ?_⟩
    rw [splitlinesFrom.eq_3 line c cs hcrlf, if_neg hc, he, List.reverse_cons, List.append_assoc,
      List.singleton_append]

theorem splitlinesFrom_prefix {p line s : PyStr} (hp : IsLine p) :
    splitlinesFrom line (p ++ s) = splitlinesFrom (p.reverse ++ line) s := by
  induction p generalizing line with
  | nil => rfl
  | cons c p ih =>
    rw [List.cons_append, splitlinesFrom_plain (hp c List.mem_cons_self),
      ih fun d hd => hp d (List.mem_cons_of_mem c hd), List.reverse_cons, List.append_assoc,
      List.singleton_append]

/-- The references begin on a line of their own name. -/
theorem refsLines_head (fact : Fact) (calls : List (List ExternalRef)) :
    ∃ t rest, refsLines fact calls = ("external_refs: ".toList ++ t) :: rest := by
  cases calls with
  | nil => exact ⟨_, [], by rw [refsLines]⟩
  | cons refs calls =>
    have hname : IsLine "external_refs: ".toList ∧ "external_refs: ".toList ≠ [] := by
      unfold IsLine
      decide
    have hlines : ∃ t rest, linesOf (refsLine refs) = ("external_refs: ".toList ++ t) :: rest := by
      unfold refsLine
      generalize "external_refs: ".toList = name at hname
      obtain ⟨t, rest, he⟩ := splitlinesFrom_head (mt List.reverse_eq_nil_iff.mp hname.2)
        ((refsJson refs).dumps (Json.spaced false false))
      refine ⟨t, rest, ?_⟩
      rw [linesOf, if_neg (List.append_ne_nil_of_left_ne_nil hname.2 _), splitlines, splitlinesFrom_prefix hname.1,
        List.append_nil, he, List.reverse_reverse]
    obtain ⟨t, rest, he⟩ := hlines
    exact ⟨t, rest ++ (refsLines fact calls).drop 1, by rw [refsLines, he, List.cons_append]⟩

theorem refsName_head (t : PyStr) : startsWith "external_refs:".toList ("external_refs: ".toList ++ t) = true ∧
    strip ("external_refs: ".toList ++ t) ≠ "---".toList := by
  have hname : "external_refs: ".toList = "external_refs:".toList ++ [' '] := by decide
  constructor
  · rw [startsWith, hname, List.append_assoc]
    exact List.isPrefixOf_iff_prefix.mpr (List.prefix_append _ _)
  · obtain ⟨cs, hcs⟩ : ∃ cs, "external_refs: ".toList = 'e' :: cs := ⟨_, rfl⟩
    obtain ⟨u, hu⟩ := strip_cons (c := 'e') (by decide) (cs ++ t)
    rw [hcs, List.cons_append, hu]
    intro he
    exact absurd (List.cons.inj he).1 (by decide)

theorem unbroken_refsLine (refs : List ExternalRef) : Unbroken (refsLine refs) := by
  intro c hc
  obtain ⟨items, hitems⟩ : ∃ items, (refsJson refs).dumps (Json.spaced false false) = items ++ [']'] := by
    rw [refsJson, Json.dumps]
    exact ⟨_, rfl⟩
  have hend : (refsLine refs).getLast? = some ']' := by
    unfold refsLine
    generalize "external_refs: ".toList = name
    rw [hitems, ← List.append_assoc, List.getLast?_concat]
  rw [hend] at hc
  cases hc
  decide

theorem replaceRefs_append {newLine first : PyStr} {before after : List PyStr}
    (hb : ∀ l ∈ before, startsWith "external_refs:".toList l = false)
    (hf : startsWith "external_refs:".toList first = true) :
    replaceRefs newLine (before ++ first :: after) = before ++ newLine :: after := by
  induction before with
  | nil => exact if_pos hf
  | cons l before ih =>
    rw [List.cons_append, replaceRefs, hb l List.mem_cons_self, if_neg (by decide),
      ih fun l' hl' => hb l' (List.mem_cons_of_mem l hl'), List.cons_append]

theorem keyLinesBefore_names : ∀ l ∈ keyLinesBefore fact, startsWith "external_refs:".toList l = false := by
  intro l hl
  simp only [keyLinesBefore, keyLines, List.take_succ_cons, List.take_zero, List.mem_cons, List.not_mem_nil,
    or_false] at hl
  rcases hl with rfl | rfl | rfl | rfl | rfl | rfl | rfl
  all_goals rfl

theorem strip_ne_mark {l : PyStr} (hl : l ∈ keyLines fact) : strip l ≠ "---".toList := by
  obtain ⟨c, s, rfl, hc, _, hdash⟩ := keyLines_start l hl
  obtain ⟨t, ht⟩ := strip_cons hc s
  rw [ht]
  intro he
  exact hdash (List.cons.inj he).1

theorem flatMap_linesOf {ls : List PyStr} (h : ∀ l ∈ ls, IsLine l) : ls.flatMap linesOf = ls := by
  induction ls with
  | nil => rfl
  | cons l ls ih =>
    rw [List.flatMap_cons, linesOf_line (h l List.mem_cons_self), ih fun l' hl' => h l' (List.mem_cons_of_mem l hl'),
      List.singleton_append]

/-- Lines are cut in front of the first closing mark. -/
theorem span_mark {lines : List PyStr} (h : "---".toList ∈ lines) :
    ∃ front back, lines.span (strip · ≠ "---".toList) = (front, back) ∧ lines = front ++ back ∧ back ≠ [] := by
  refine ⟨_, _, List.span_eq_takeWhile_dropWhile .., List.takeWhile_append_dropWhile.symm, fun hnil => ?_⟩
  have hall := List.dropWhile_eq_nil_iff.mp hnil _ h
  revert hall
  decide

theorem span_append {p : PyStr → Bool} {before after front back : List PyStr} (hb : ∀ l ∈ before, p l = true)
    (h : after.span p = (front, back)) : (before ++ after).span p = (before ++ front, back) := by
  rw [List.span_eq_takeWhile_dropWhile] at h ⊢
  obtain ⟨hfront, hback⟩ := Prod.mk.inj h
  rw [List.takeWhile_append_of_pos hb, List.dropWhile_append_of_pos hb, hfront, hback]

theorem splitlines_written (hg : fact.Guarded) (h : Written fact calls file) :
    splitlines file = fileLines fact calls := by
  induction h with
  | add =>
    rw [splitlines_serializeFact hg, frontmatterLines_eq hg]
    simp only [fileLines, refsLines, keyLinesBefore, keyLines, List.take_succ_cons, List.take_zero, List.cons_append,
      List.nil_append]
  | @set calls file file' h refs hset ih =>
    obtain ⟨t, rest, hrefs⟩ := refsLines_head fact calls
    obtain ⟨hfirst, hnamed⟩ := refsName_head t
    generalize "external_refs: ".toList ++ t = first at hrefs hfirst hnamed
    have hlines : fileLines fact calls = "---".toList :: (keyLinesBefore fact ++
        first :: (rest ++ "---".toList :: (bodyParts fact).flatMap linesOf)) := by
      rw [fileLines, hrefs, List.cons_append]
    have hclose : "---".toList ∈ rest ++ "---".toList :: (bodyParts fact).flatMap linesOf :=
      List.mem_append_right _ List.mem_cons_self
    have hsame : fileLines fact (refs :: calls) = "---".toList :: (keyLinesBefore fact ++ (linesOf (refsLine refs) ++
        (rest ++ "---".toList :: (bodyParts fact).flatMap linesOf))) := by
      rw [fileLines, refsLines, hrefs, List.drop_one, List.tail_cons, List.append_assoc]
    generalize rest ++ "---".toList :: (bodyParts fact).flatMap linesOf = tail at hlines hclose hsame
    obtain ⟨front, back, hspan, hcut, hback⟩ := span_mark hclose
    -- the search for the closing mark may stop in the references, but behind the line that is replaced
    have hmark : ∀ l ∈ keyLinesBefore fact ++ [first], decide (strip l ≠ "---".toList) = true := by
      intro l hl
      rcases List.mem_append.mp hl with hl | hl
      · exact decide_eq_true (strip_ne_mark (List.mem_of_mem_take hl))
      · rw [List.mem_singleton.mp hl]
        exact decide_eq_true hnamed
    have hall := span_append hmark hspan
    rw [List.append_assoc, List.singleton_append] at hall
    have hfile : splitlines (universalNewlines file) = "---".toList :: (keyLinesBefore fact ++ first :: tail) := by
      rw [splitlines_universalNewlines, ih, hlines]
    rw [setExternalRefs, hfile] at hset
    dsimp only at hset
    rw [hall] at hset
    dsimp only at hset
    rw [if_neg hback, List.append_assoc, List.singleton_append, replaceRefs_append keyLinesBefore_names hfirst] at hset
    obtain rfl := Except.ok.inj hset
    have htail : ∀ l ∈ tail, IsLine l := by
      intro l hl
      refine splitlines_isLine (s := file) ?_
      rw [ih, hlines]
      exact List.mem_cons_of_mem _ (List.mem_append_right _ (List.mem_cons_of_mem _ hl))
    have hfront : ∀ l ∈ "---".toList :: keyLinesBefore fact, IsLine l := by
      intro l hl
      rcases List.mem_cons.mp hl with rfl | hl
      · exact isLine_of_plain (by decide)
      · exact keyLines_isLine hg l (List.mem_of_mem_take hl)
    have hparts : "---".toList :: (keyLinesBefore fact ++ refsLine refs :: front) ++ back =
        ("---".toList :: keyLinesBefore fact) ++ ([refsLine refs] ++ tail) := by
      rw [hcut, List.cons_append, List.cons_append, List.append_assoc, List.cons_append, List.singleton_append]
    have hend (parts : List PyStr) (hne : parts ≠ []) :
        joinWith ['\n'] parts ++ ['\n'] = joinWith ['\n'] (parts ++ [[]]) := by
      rw [joinWith_append ['\n'] hne (List.cons_ne_nil [] []), joinWith_singleton, List.append_nil]
    rw [hparts, hend _ (List.append_ne_nil_of_left_ne_nil (List.cons_ne_nil _ _) _), splitlines_join,
      List.flatMap_append, List.flatMap_append, flatMap_linesOf hfront, flatMap_linesOf htail,
      List.flatMap_singleton, hsame, List.cons_append]
    intro p hp
    rcases List.mem_append.mp hp with hp | hp
    · exact unbroken_line (hfront p hp)
    · rcases List.mem_append.mp hp with hp | hp
      · rw [List.mem_singleton.mp hp]
        exact unbroken_refsLine refs
      · exact unbroken_line (htail p hp)

end Written
end Danus.FactGraph
