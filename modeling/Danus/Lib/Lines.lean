import Danus.Lib.Text

/-! Words and lines of a text: what stripping, breaking into lines and joining again keep. -/
namespace Python

/-- `re.sub(r"\s+", " ", text)`; the flag says whether the last character was a space. -/
def collapseFrom : Bool → PyStr → PyStr
  | _, [] => []
  | inside, c :: cs =>
    if isSpace c then
      if inside then collapseFrom true cs else ' ' :: collapseFrom true cs
    else c :: collapseFrom false cs

/-- `re.sub(r"\s+", " ", text).strip()` -/
def normalize (s : PyStr) : PyStr := strip (collapseFrom false s)

/-- `text.split()`, with the word read so far. -/
def wordsFrom (word : PyStr) : PyStr → List PyStr
  | [] => if word.isEmpty then [] else [word.reverse]
  | c :: cs =>
    if isSpace c then
      if word.isEmpty then wordsFrom [] cs else word.reverse :: wordsFrom [] cs
    else wordsFrom (c :: word) cs

def words (s : PyStr) : List PyStr := wordsFrom [] s

/-- The lines that are not blank, stripped. -/
def trimmedLines (lines : List PyStr) : List PyStr := (lines.map strip).filter (· ≠ [])

section Spaces
variable {c : Char} {s t : PyStr}

theorem isSpace_of_isLineBreak (h : isLineBreak c = true) : isSpace c = true := by
  simp only [isLineBreak, isSpace, Bool.or_eq_true, Bool.and_eq_true, decide_eq_true_eq,
    beq_iff_eq] at h ⊢
  omega

theorem lstrip_cons_space (hc : isSpace c = true) : lstrip (c :: s) = lstrip s :=
  List.dropWhile_cons_of_pos hc

theorem lstrip_cons (hc : isSpace c = false) : lstrip (c :: s) = c :: s :=
  List.dropWhile_cons_of_neg (by simp [hc])

theorem rstrip_append_space (hc : isSpace c = true) : rstrip (s ++ [c]) = rstrip s := by
  rw [rstrip, List.reverse_append]
  exact congrArg List.reverse (List.dropWhile_cons_of_pos hc)

theorem rstrip_append (hc : isSpace c = false) : rstrip (s ++ [c]) = s ++ [c] := by
  have hd : List.dropWhile isSpace (c :: s.reverse) = c :: s.reverse :=
    List.dropWhile_cons_of_neg (by simp [hc])
  rw [rstrip, List.reverse_append]
  exact (congrArg List.reverse hd).trans (by simp)

theorem lstrip_append (s t : PyStr) :
    lstrip (s ++ t) = if lstrip s = [] then lstrip t else lstrip s ++ t := by
  induction s with
  | nil => rfl
  | cons c s ih =>
    by_cases hc : isSpace c = true
    · rw [List.cons_append, lstrip_cons_space hc, lstrip_cons_space hc, ih]
    · rw [Bool.not_eq_true] at hc
      rw [List.cons_append, lstrip_cons hc, lstrip_cons hc, if_neg (List.cons_ne_nil _ _)]
      rfl

theorem strip_cons_space (hc : isSpace c = true) : strip (c :: s) = strip s := by
  rw [strip, lstrip_cons_space hc]
  rfl

theorem strip_append_space (hc : isSpace c = true) : strip (s ++ [c]) = strip s := by
  rw [strip, strip, lstrip_append]
  by_cases hs : lstrip s = []
  · rw [if_pos hs, hs, lstrip_cons_space hc]
    rfl
  · rw [if_neg hs, rstrip_append_space hc]

theorem rstrip_append_eq (s t : PyStr) :
    rstrip (s ++ t) = if rstrip t = [] then rstrip s else s ++ rstrip t := by
  have h := lstrip_append t.reverse s.reverse
  have hnil : rstrip t = [] ↔ lstrip t.reverse = [] := List.reverse_eq_nil_iff
  rw [rstrip, List.reverse_append]
  refine (congrArg List.reverse h).trans ?_
  by_cases ht : lstrip t.reverse = []
  · rw [if_pos ht, if_pos (hnil.mpr ht)]
    rfl
  · rw [if_neg ht, if_neg (mt hnil.mp ht), List.reverse_append, List.reverse_reverse]
    rfl

/-- A text without spaces at its ends is stripped. -/
theorem strip_eq_self (hl : ∀ c ∈ s.head?, isSpace c = false) (hr : ∀ c ∈ s.getLast?, isSpace c = false) :
    strip s = s := by
  have hlead : lstrip s = s := by
    cases s with
    | nil => rfl
    | cons c s => exact lstrip_cons (hl c rfl)
  rw [strip, hlead]
  cases hs : s using List.reverseRecOn with
  | nil => rfl
  | append_singleton s c =>
    subst hs
    exact rstrip_append (hr c (by simp))

theorem strip_of_noSpace (hs : ∀ c ∈ s, isSpace c = false) : strip s = s :=
  strip_eq_self (fun c hc => hs c (List.mem_of_mem_head? hc)) fun c hc => hs c (List.mem_of_getLast? hc)

theorem strip_cons (hc : isSpace c = false) (s : PyStr) : ∃ t, strip (c :: s) = c :: t := by
  rw [strip, lstrip_cons hc]
  cases s using List.reverseRecOn with
  | nil => exact ⟨[], rstrip_append (s := []) hc⟩
  | append_singleton s d =>
    rw [← List.singleton_append, rstrip_append_eq]
    split_ifs
    · exact ⟨[], rstrip_append (s := []) hc⟩
    · exact ⟨_, rfl⟩

end Spaces

section Words
variable {c : Char} {w s t : PyStr}

theorem wordsFrom_append (hc : isSpace c = true) (w s t : PyStr) :
    wordsFrom w (s ++ c :: t) = wordsFrom w s ++ words t := by
  induction s generalizing w with
  | nil =>
    have hcons : wordsFrom w (c :: t) =
        if w.isEmpty then wordsFrom [] t else w.reverse :: wordsFrom [] t := by
      rw [wordsFrom, if_pos hc]
    rw [List.nil_append, hcons, wordsFrom]
    split_ifs <;> rfl
  | cons d s ih =>
    rw [List.cons_append, wordsFrom, wordsFrom]
    split_ifs
    · exact ih []
    · rw [ih, List.cons_append]
    · exact ih _

theorem words_append_cons (hc : isSpace c = true) (s t : PyStr) :
    words (s ++ c :: t) = words s ++ words t := wordsFrom_append hc [] s t

theorem words_nil : words [] = [] := rfl

theorem words_cons_space (hc : isSpace c = true) (s : PyStr) : words (c :: s) = words s :=
  words_append_cons hc [] s

theorem words_append_space (hc : isSpace c = true) (s : PyStr) : words (s ++ [c]) = words s := by
  rw [words_append_cons hc, words_nil, List.append_nil]

theorem words_lstrip (s : PyStr) : words (lstrip s) = words s := by
  induction s with
  | nil => rfl
  | cons c s ih =>
    by_cases hc : isSpace c = true
    · rw [lstrip_cons_space hc, words_cons_space hc, ih]
    · rw [lstrip_cons (by simpa using hc)]

theorem words_rstrip (s : PyStr) : words (rstrip s) = words s := by
  induction s using List.reverseRecOn with
  | nil => rfl
  | append_singleton s c ih =>
    by_cases hc : isSpace c = true
    · rw [rstrip_append_space hc, words_append_space hc, ih]
    · rw [rstrip_append (by simpa using hc)]

theorem words_strip (s : PyStr) : words (strip s) = words s := by
  rw [strip, words_rstrip, words_lstrip]

theorem words_join (hc : isSpace c = true) (parts : List PyStr) :
    words (joinWith [c] parts) = parts.flatMap words := by
  induction parts with
  | nil => rfl
  | cons p parts ih =>
    cases parts with
    | nil => rw [joinWith_singleton, List.flatMap_cons, List.flatMap_nil, List.append_nil]
    | cons q parts =>
      rw [joinWith_cons_cons, List.singleton_append, words_append_cons hc, ih,
        List.flatMap_cons (x := p)]

theorem wordsFrom_ne_nil (hw : ∀ d ∈ w, isSpace d = false) : ∀ v ∈ wordsFrom w s, v ≠ [] := by
  induction s generalizing w with
  | nil =>
    intro v hv
    unfold wordsFrom at hv
    split_ifs at hv with he
    · cases hv
    · rw [List.mem_singleton.mp hv]
      simpa using he
  | cons c s ih =>
    have hnil : ∀ d ∈ ([] : PyStr), isSpace d = false := by simp
    intro v hv
    unfold wordsFrom at hv
    split_ifs at hv with hc he
    · exact ih hnil v hv
    · rcases List.mem_cons.mp hv with rfl | hv
      · simpa using he
      · exact ih hnil v hv
    · refine ih (fun d hd => ?_) v hv
      rcases List.mem_cons.mp hd with rfl | hd
      · simpa using hc
      · exact hw d hd

theorem joinWith_ne_nil {sep : PyStr} {parts : List PyStr} (hne : parts ≠ [])
    (hp : ∀ p ∈ parts, p ≠ []) : joinWith sep parts ≠ [] := by
  cases parts with
  | nil => exact (hne rfl).elim
  | cons p parts =>
    have hpne := hp p List.mem_cons_self
    cases parts with
    | nil => rwa [joinWith_singleton]
    | cons q parts =>
      rw [joinWith_cons_cons]
      intro he
      exact hpne (List.append_eq_nil_iff.mp he).1

/-- After a word, or after a space, the collapsed text is the words with one space between them. -/
theorem rstrip_collapseFrom (s : PyStr) :
    (∀ w, w ≠ [] → (∀ d ∈ w, isSpace d = false) →
      rstrip (w.reverse ++ collapseFrom false s) = joinWith [' '] (wordsFrom w s)) ∧
    rstrip (collapseFrom true s) = joinWith [' '] (words s) := by
  induction s with
  | nil =>
    refine ⟨fun w hw hd => ?_, rfl⟩
    cases w with
    | nil => exact (hw rfl).elim
    | cons d w =>
      have hword : wordsFrom (d :: w) [] = [(d :: w).reverse] := rfl
      rw [hword, joinWith_singleton, collapseFrom, List.append_nil, List.reverse_cons,
        rstrip_append (hd d List.mem_cons_self)]
  | cons c s ih =>
    obtain ⟨ihword, ihspace⟩ := ih
    by_cases hc : isSpace c = true
    · refine ⟨fun w hw hd => ?_, ?_⟩
      · have hword : wordsFrom w (c :: s) = w.reverse :: words s := by
          rw [wordsFrom, if_pos hc, if_neg (by simpa using hw)]
          rfl
        have hlast : rstrip (w.reverse ++ [' ']) = w.reverse := by
          cases w with
          | nil => exact (hw rfl).elim
          | cons d w =>
            rw [rstrip_append_space (by decide), List.reverse_cons,
              rstrip_append (hd d List.mem_cons_self)]
        have hsplit : w.reverse ++ ' ' :: collapseFrom true s =
          (w.reverse ++ [' ']) ++ collapseFrom true s := by simp
        rw [hword, collapseFrom, if_pos hc, if_neg (by simp), hsplit, rstrip_append_eq, ihspace]
        cases hs : words s with
        | nil => rw [joinWith_singleton, if_pos (show joinWith [' '] [] = [] from rfl), hlast]
        | cons v vs =>
          have hne : joinWith [' '] (v :: vs) ≠ [] := joinWith_ne_nil (List.cons_ne_nil _ _) (by
            rw [← hs]
            exact wordsFrom_ne_nil (by simp))
          rw [if_neg hne, joinWith_cons_cons, List.append_assoc]
      · rw [collapseFrom, if_pos hc, if_pos rfl, ihspace, words_cons_space hc]
    · have hstep : wordsFrom [c] s = words (c :: s) := by
        rw [words, wordsFrom, if_neg hc]
      refine ⟨fun w hw hd => ?_, ?_⟩
      · have h := ihword (c :: w) (List.cons_ne_nil _ _) (by
          intro d hd'
          rcases List.mem_cons.mp hd' with rfl | hd'
          · simpa using hc
          · exact hd d hd')
        rw [collapseFrom, if_neg hc, wordsFrom, if_neg hc, ← h, List.reverse_cons, List.append_assoc]
        rfl
      · have h := ihword [c] (List.cons_ne_nil _ _) (by simpa using hc)
        rw [collapseFrom, if_neg hc, ← hstep, ← h]
        rfl

theorem lstrip_collapseFrom (s : PyStr) :
    lstrip (collapseFrom false s) = collapseFrom true s ∧
      lstrip (collapseFrom true s) = collapseFrom true s := by
  induction s with
  | nil => exact ⟨rfl, rfl⟩
  | cons c s ih =>
    by_cases hc : isSpace c = true
    · simp only [collapseFrom, hc, if_true, Bool.false_eq_true, if_false]
      rw [lstrip_cons_space (by decide)]
      exact ⟨ih.2, ih.2⟩
    · simp only [collapseFrom, if_neg hc]
      rw [lstrip_cons (by simpa using hc)]
      exact ⟨rfl, rfl⟩

/-- A normalized text is its words with one space between them. -/
theorem normalize_eq (s : PyStr) : normalize s = joinWith [' '] (words s) := by
  rw [normalize, strip, (lstrip_collapseFrom s).1, (rstrip_collapseFrom s).2]

theorem normalize_congr (h : words s = words t) : normalize s = normalize t := by
  rw [normalize_eq, normalize_eq, h]

end Words

/-- The lines that a text takes up between two line breaks. -/
def linesOf (s : PyStr) : List PyStr := if s = [] then [[]] else splitlines s

/-- A text that does not end in a line break. -/
def Unbroken (s : PyStr) : Prop := ∀ c ∈ s.getLast?, isLineBreak c = false

section Lines
variable {c : Char} {l s t : PyStr}

theorem Unbroken.tail (h : Unbroken (c :: s)) (hs : s ≠ []) : Unbroken s := by
  cases s with
  | nil => exact (hs rfl).elim
  | cons d s =>
    intro e he
    refine h e ?_
    rwa [List.getLast?_cons_cons]

theorem splitlinesFrom_break (hc : isLineBreak c = true) (hr : c = '\r' → s.head? ≠ some '\n') :
    splitlinesFrom l (c :: s) = l.reverse :: splitlines s := by
  have hcrlf : ∀ s', c = '\r' → s = '\n' :: s' → False := by
    rintro s' rfl rfl
    exact hr rfl rfl
  rw [splitlinesFrom.eq_3 l c s hcrlf, if_pos hc]
  rfl

theorem splitlinesFrom_feed : splitlinesFrom l ('\n' :: s) = l.reverse :: splitlines s :=
  splitlinesFrom_break (by decide) fun h => absurd h (by decide)

theorem splitlinesFrom_plain (hc : isLineBreak c = false) :
    splitlinesFrom l (c :: s) = splitlinesFrom (c :: l) s := by
  have hr : c ≠ '\r' := by
    rintro rfl
    simp [isLineBreak] at hc
  rw [splitlinesFrom.eq_3 l c s (fun _ h => (hr h).elim), if_neg (by simp [hc])]

/-- A line feed after a text that does not end in a line break ends its last line. -/
theorem splitlinesFrom_append (hs : Unbroken s) :
    splitlinesFrom l (s ++ '\n' :: t) =
      (if s = [] then [l.reverse] else splitlinesFrom l s) ++ splitlines t := by
  induction l, s using splitlinesFrom.induct with
  | case1 l hl =>
    rw [List.nil_append, splitlinesFrom_feed]
    rfl
  | case2 l hl =>
    rw [List.nil_append, splitlinesFrom_feed]
    rfl
  | case3 l cs ih =>
    have hcs : cs ≠ [] := by
      rintro rfl
      simpa [isLineBreak] using hs '\n' rfl
    have h := ih ((hs.tail (List.cons_ne_nil _ _)).tail hcs)
    rw [if_neg hcs] at h
    rw [if_neg (List.cons_ne_nil _ _), splitlinesFrom, List.cons_append, List.cons_append,
      splitlinesFrom, h, List.cons_append]
  | case4 l c cs hcrlf hc ih =>
    have hcs : cs ≠ [] := by
      rintro rfl
      rw [hs c rfl] at hc
      cases hc
    have h := ih (hs.tail hcs)
    rw [if_neg hcs] at h
    have hhead : c = '\r' → cs.head? ≠ some '\n' := by
      intro hr hn
      obtain ⟨d, cs', rfl⟩ := List.exists_cons_of_ne_nil hcs
      rw [List.head?_cons, Option.some_inj] at hn
      exact hcrlf cs' hr (by rw [hn])
    have hhead' : c = '\r' → (cs ++ '\n' :: t).head? ≠ some '\n' := by
      obtain ⟨d, cs', rfl⟩ := List.exists_cons_of_ne_nil hcs
      exact hhead
    rw [if_neg (List.cons_ne_nil _ _), List.cons_append, splitlinesFrom_break hc hhead',
      splitlinesFrom_break hc hhead, List.cons_append]
    exact congrArg _ h
  | case5 l c cs hcrlf hc ih =>
    rw [Bool.not_eq_true] at hc
    rw [if_neg (List.cons_ne_nil _ _), List.cons_append, splitlinesFrom_plain hc,
      splitlinesFrom_plain hc]
    by_cases hcs : cs = []
    · rw [hcs, List.nil_append, splitlinesFrom_feed]
      rfl
    · have h := ih (hs.tail hcs)
      rwa [if_neg hcs] at h

theorem splitlines_append (hs : Unbroken s) :
    splitlines (s ++ '\n' :: t) = linesOf s ++ splitlines t := by
  rw [splitlines, splitlinesFrom_append hs]
  rfl

/-- Each part of a text takes up its own lines. -/
theorem splitlines_join {parts : List PyStr} (hp : ∀ p ∈ parts, Unbroken p) :
    splitlines (joinWith ['\n'] (parts ++ [[]])) = parts.flatMap linesOf := by
  induction parts with
  | nil => rfl
  | cons p parts ih =>
    have hjoin : joinWith ['\n'] (p :: parts ++ [[]]) =
        p ++ '\n' :: joinWith ['\n'] (parts ++ [[]]) := by
      cases parts with
      | nil => rfl
      | cons q parts => exact joinWith_cons_cons _ _ _ _
    rw [hjoin, splitlines_append (hp p List.mem_cons_self), List.flatMap_cons,
      ih fun q hq => hp q (List.mem_cons_of_mem _ hq)]

/-- A text without line breaks is one line. -/
theorem splitlinesFrom_line (hs : ∀ c ∈ s, isLineBreak c = false) :
    splitlinesFrom l s = if s = [] ∧ l = [] then [] else [l.reverse ++ s] := by
  induction s generalizing l with
  | nil =>
    cases l with
    | nil => rfl
    | cons d l => simp [splitlinesFrom]
  | cons c s ih =>
    rw [splitlinesFrom_plain (hs c List.mem_cons_self),
      ih fun d hd => hs d (List.mem_cons_of_mem _ hd)]
    simp

theorem linesOf_line (hs : ∀ c ∈ s, isLineBreak c = false) : linesOf s = [s] := by
  unfold linesOf
  by_cases h : s = []
  · rw [if_pos h, h]
  · rw [if_neg h, splitlines, splitlinesFrom_line hs, if_neg fun he => h he.1]
    rfl

theorem unbroken_line (hs : ∀ c ∈ s, isLineBreak c = false) : Unbroken s :=
  fun c hc => hs c (List.mem_of_getLast? hc)

theorem unbroken_strip (s : PyStr) : Unbroken (strip s) := by
  intro c hc
  rw [strip, rstrip, List.getLast?_reverse] at hc
  have hspace : isSpace c = false := by
    have h := List.head?_dropWhile_not isSpace (lstrip s).reverse
    rw [Option.mem_def.mp hc] at h
    simpa using h
  by_contra hb
  rw [Bool.not_eq_false] at hb
  rw [isSpace_of_isLineBreak hb] at hspace
  cases hspace

/-- The words of a text are those of its lines. -/
theorem words_splitlinesFrom (l s : PyStr) :
    (splitlinesFrom l s).flatMap words = words (l.reverse ++ s) := by
  induction l, s using splitlinesFrom.induct with
  | case1 l hl =>
    rw [List.isEmpty_iff.mp hl]
    rfl
  | case2 l hl => simp [splitlinesFrom, hl]
  | case3 l cs ih =>
    rw [splitlinesFrom, List.flatMap_cons, ih, words_append_cons (by decide),
      words_cons_space (by decide)]
    rfl
  | case4 l c cs hcrlf hc ih =>
    rw [splitlinesFrom.eq_3 l c cs hcrlf, if_pos hc, List.flatMap_cons, ih,
      words_append_cons (isSpace_of_isLineBreak hc)]
    rfl
  | case5 l c cs hcrlf hc ih =>
    rw [splitlinesFrom.eq_3 l c cs hcrlf, if_neg hc, ih, List.reverse_cons, List.append_assoc]
    rfl

theorem words_splitlines (s : PyStr) : (splitlines s).flatMap words = words s :=
  words_splitlinesFrom [] s

theorem words_linesOf (s : PyStr) : (linesOf s).flatMap words = words s := by
  unfold linesOf
  by_cases h : s = []
  · rw [if_pos h, h]
    rfl
  · rw [if_neg h, words_splitlines]

theorem trimmedLines_cons (p : PyStr) (ls : List PyStr) :
    trimmedLines (p :: ls) = (if strip p = [] then [] else [strip p]) ++ trimmedLines ls := by
  unfold trimmedLines
  rw [List.map_cons]
  by_cases h : strip p = []
  · rw [List.filter_cons_of_neg (by simpa using h), if_pos h, List.nil_append]
  · rw [List.filter_cons_of_pos (by simpa using h), if_neg h, List.singleton_append]

theorem trimmedLines_append (ls ms : List PyStr) :
    trimmedLines (ls ++ ms) = trimmedLines ls ++ trimmedLines ms := by
  rw [trimmedLines, List.map_append, List.filter_append]
  rfl

theorem trimmedLines_lead (hc : isSpace c = true) :
    trimmedLines (splitlinesFrom (l ++ [c]) s) = trimmedLines (splitlinesFrom l s) := by
  induction l, s using splitlinesFrom.induct with
  | case1 l hl =>
    have hstrip : strip [c] = [] := strip_cons_space (s := []) hc
    rw [List.isEmpty_iff.mp hl]
    have hone : trimmedLines (splitlinesFrom ([] ++ [c]) []) = trimmedLines [[c]] := rfl
    rw [hone, trimmedLines_cons, hstrip]
    rfl
  | case2 l hl =>
    have hlead : splitlinesFrom (l ++ [c]) [] = [(l ++ [c]).reverse] := by simp [splitlinesFrom]
    have hplain : splitlinesFrom l [] = [l.reverse] := by simp [splitlinesFrom, hl]
    rw [hlead, hplain, List.reverse_append, List.reverse_singleton, List.singleton_append,
      trimmedLines_cons, trimmedLines_cons, strip_cons_space hc]
  | case3 l cs ih =>
    rw [splitlinesFrom, splitlinesFrom, List.reverse_append, List.reverse_singleton,
      List.singleton_append, trimmedLines_cons, trimmedLines_cons, strip_cons_space hc]
  | case4 l d cs hcrlf hd ih =>
    rw [splitlinesFrom.eq_3 _ d cs hcrlf, splitlinesFrom.eq_3 _ d cs hcrlf, if_pos hd, if_pos hd,
      List.reverse_append, List.reverse_singleton, List.singleton_append, trimmedLines_cons,
      trimmedLines_cons, strip_cons_space hc]
  | case5 l d cs hcrlf hd ih =>
    rw [splitlinesFrom.eq_3 _ d cs hcrlf, splitlinesFrom.eq_3 _ d cs hcrlf, if_neg hd, if_neg hd]
    exact ih

theorem trimmedLines_last (hc : isSpace c = true) :
    trimmedLines (splitlinesFrom l [c]) = trimmedLines [l.reverse] := by
  by_cases hb : isLineBreak c = true
  · rw [splitlinesFrom_break hb fun _ => by simp]
    rfl
  · have hline : splitlinesFrom l [c] = [l.reverse ++ [c]] := by
      rw [splitlinesFrom_plain (by simpa using hb)]
      simp [splitlinesFrom]
    rw [hline, trimmedLines_cons, trimmedLines_cons, strip_append_space hc]

theorem trimmedLines_trail (hc : isSpace c = true) :
    trimmedLines (splitlinesFrom l (s ++ [c])) = trimmedLines (splitlinesFrom l s) := by
  induction l, s using splitlinesFrom.induct with
  | case1 l hl =>
    rw [List.nil_append, trimmedLines_last hc, List.isEmpty_iff.mp hl]
    rfl
  | case2 l hl =>
    rw [List.nil_append, trimmedLines_last hc]
    simp [splitlinesFrom, hl]
  | case3 l cs ih =>
    rw [List.cons_append, List.cons_append, splitlinesFrom, splitlinesFrom, trimmedLines_cons,
      trimmedLines_cons, ih]
  | case4 l d cs hcrlf hd ih =>
    rw [splitlinesFrom.eq_3 l d cs hcrlf, if_pos hd, List.cons_append, trimmedLines_cons, ← ih]
    by_cases hjoin : d = '\r' ∧ cs = [] ∧ c = '\n'
    · obtain ⟨rfl, rfl, rfl⟩ := hjoin
      have hone : splitlinesFrom l ('\r' :: ([] ++ ['\n'])) = [l.reverse] := rfl
      rw [hone, trimmedLines_cons]
      rfl
    · have hhead : d = '\r' → (cs ++ [c]).head? ≠ some '\n' := by
        intro hr
        cases cs with
        | nil =>
          intro hn
          rw [List.nil_append, List.head?_cons, Option.some_inj] at hn
          exact hjoin ⟨hr, rfl, hn⟩
        | cons e cs =>
          intro hn
          rw [List.cons_append, List.head?_cons, Option.some_inj] at hn
          exact hcrlf cs hr (by rw [hn])
      rw [splitlinesFrom_break hd hhead, trimmedLines_cons]
      rfl
  | case5 l d cs hcrlf hd ih =>
    rw [Bool.not_eq_true] at hd
    rw [List.cons_append, splitlinesFrom_plain hd, splitlinesFrom_plain hd, ih]

theorem trimmedLines_cons_space (hc : isSpace c = true) (s : PyStr) :
    trimmedLines (splitlines (c :: s)) = trimmedLines (splitlines s) := by
  by_cases hb : isLineBreak c = true
  · by_cases hcrlf : c = '\r' ∧ s.head? = some '\n'
    · obtain ⟨rfl, hn⟩ := hcrlf
      obtain ⟨s', rfl⟩ := List.head?_eq_some_iff.mp hn
      rfl
    · rw [splitlines, splitlinesFrom_break hb fun hr hn => hcrlf ⟨hr, hn⟩, trimmedLines_cons]
      rfl
  · rw [splitlines, splitlinesFrom_plain (by simpa using hb)]
    exact trimmedLines_lead (l := []) hc

theorem trimmedLines_lstrip (s : PyStr) :
    trimmedLines (splitlines (lstrip s)) = trimmedLines (splitlines s) := by
  induction s with
  | nil => rfl
  | cons c s ih =>
    by_cases hc : isSpace c = true
    · rw [lstrip_cons_space hc, ih, trimmedLines_cons_space hc]
    · rw [lstrip_cons (by simpa using hc)]

theorem trimmedLines_rstrip (s : PyStr) :
    trimmedLines (splitlines (rstrip s)) = trimmedLines (splitlines s) := by
  induction s using List.reverseRecOn with
  | nil => rfl
  | append_singleton s c ih =>
    by_cases hc : isSpace c = true
    · rw [rstrip_append_space hc, ih]
      exact (trimmedLines_trail hc).symm
    · rw [rstrip_append (by simpa using hc)]

/-- Stripping a text does not change which lines it has, up to blank ones and stripping. -/
theorem trimmedLines_strip (s : PyStr) :
    trimmedLines (splitlines (strip s)) = trimmedLines (splitlines s) := by
  rw [strip, trimmedLines_rstrip, trimmedLines_lstrip]

theorem trimmedLines_linesOf (s : PyStr) : trimmedLines (linesOf s) = trimmedLines (splitlines s) := by
  unfold linesOf
  by_cases h : s = []
  · rw [if_pos h, h]
    rfl
  · rw [if_neg h]

theorem words_trimmedLines (ls : List PyStr) : (trimmedLines ls).flatMap words = ls.flatMap words := by
  induction ls with
  | nil => rfl
  | cons p ls ih =>
    rw [trimmedLines_cons, List.flatMap_append, ih, List.flatMap_cons]
    by_cases h : strip p = []
    · rw [if_pos h, ← words_strip p, h]
      rfl
    · rw [if_neg h, List.flatMap_singleton, words_strip]

/-- Reading a text file: every way to end a line becomes a line feed. -/
def universalNewlines : PyStr → PyStr
  | [] => []
  | '\r' :: '\n' :: cs => '\n' :: universalNewlines cs
  | c :: cs => (if c = '\r' then '\n' else c) :: universalNewlines cs

theorem splitlinesFrom_universalNewlines (l s : PyStr) :
    splitlinesFrom l (universalNewlines s) = splitlinesFrom l s := by
  induction l, s using splitlinesFrom.induct with
  | case1 l hl => rfl
  | case2 l hl => rfl
  | case3 l cs ih =>
    rw [universalNewlines, splitlinesFrom_feed, splitlinesFrom]
    exact congrArg _ ih
  | case4 l c cs hcrlf hc ih =>
    rw [universalNewlines.eq_3 c cs hcrlf, splitlinesFrom.eq_3 l c cs hcrlf, if_pos hc, ← ih]
    by_cases hr : c = '\r'
    · rw [if_pos hr, splitlinesFrom_feed]
      rfl
    · rw [if_neg hr, splitlinesFrom_break hc fun h => (hr h).elim]
      rfl
  | case5 l c cs hcrlf hc ih =>
    have hr : c ≠ '\r' := by
      rintro rfl
      exact hc (by decide)
    rw [Bool.not_eq_true] at hc
    rw [universalNewlines.eq_3 c cs hcrlf, if_neg hr, splitlinesFrom_plain hc, splitlinesFrom_plain hc,
      ih]

/-- The lines of a text file are those of the text that was written. -/
theorem splitlines_universalNewlines (s : PyStr) : splitlines (universalNewlines s) = splitlines s :=
  splitlinesFrom_universalNewlines [] s

end Lines
end Python
