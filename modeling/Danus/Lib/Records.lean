import Danus.Lib.Lines
import Mathlib.Data.List.DropRight

/-! Free text put on the lines of a line-oriented file: the lines that it takes up there. -/
namespace Python

/-- The lines of a text that a line feed follows. -/
def fedLines (s : PyStr) : List PyStr := splitlines (s ++ ['\n'])

/-- The lines of a text after the one it starts on. -/
def continuation (s : PyStr) : List PyStr := (fedLines s).tail

/-- `text.rstrip("\n")` -/
def rstripFeeds (s : PyStr) : PyStr := (s.reverse.dropWhile (· == '\n')).reverse

/-- A text in front of the first line. -/
def extendHead (p : PyStr) : List PyStr → List PyStr
  | [] => [p]
  | line :: lines => (p ++ line) :: lines

/-- A property of the characters of a literal, looked up in the literal itself. -/
theorem all_ofList {p : Char → Bool} {l : List Char} (h : l.all p = true) :
    (String.ofList l).toList.all p = true := by
  rwa [String.toList_ofList]

section Feeds
variable {c : Char} {l m p s t : PyStr}

/-- What follows a line feed is broken into lines on its own. -/
theorem splitlinesFrom_fed (l s t : PyStr) :
    splitlinesFrom l (s ++ '\n' :: t) = splitlinesFrom l (s ++ ['\n']) ++ splitlines t := by
  induction l, s using splitlinesFrom.induct with
  | case1 l hl =>
    rw [List.nil_append, List.nil_append, splitlinesFrom_feed, splitlinesFrom_feed]
    rfl
  | case2 l hl =>
    rw [List.nil_append, List.nil_append, splitlinesFrom_feed, splitlinesFrom_feed]
    rfl
  | case3 l cs ih =>
    simp only [List.cons_append, splitlinesFrom, ih]
  | case4 l c cs hcrlf hc ih =>
    by_cases hr : c = '\r' ∧ cs = []
    · obtain ⟨rfl, rfl⟩ := hr
      simp [splitlinesFrom, splitlines]
    · have hhead (u : PyStr) : c = '\r' → (cs ++ '\n' :: u).head? ≠ some '\n' := by
        intro hcr hn
        obtain ⟨d, cs', rfl⟩ := List.exists_cons_of_ne_nil fun he => hr ⟨hcr, he⟩
        rw [List.cons_append, List.head?_cons, Option.some_inj] at hn
        exact hcrlf cs' hcr (by rw [hn])
      rw [List.cons_append, List.cons_append, splitlinesFrom_break hc (hhead t),
        splitlinesFrom_break hc (hhead []), List.cons_append]
      exact congrArg _ ih
  | case5 l c cs hcrlf hc ih =>
    rw [Bool.not_eq_true] at hc
    rw [List.cons_append, List.cons_append, splitlinesFrom_plain hc, splitlinesFrom_plain hc, ih]

theorem splitlines_fed (s t : PyStr) : splitlines (s ++ '\n' :: t) = fedLines s ++ splitlines t :=
  splitlinesFrom_fed [] s t

/-- Each part of a joined text takes up its own lines. -/
theorem fedLines_join {parts : List PyStr} (hne : parts ≠ []) :
    fedLines (joinWith ['\n'] parts) = parts.flatMap fedLines := by
  induction parts with
  | nil => exact (hne rfl).elim
  | cons p parts ih =>
    cases parts with
    | nil => rw [joinWith_singleton, List.flatMap_singleton]
    | cons q parts =>
      have hjoin : joinWith ['\n'] (p :: q :: parts) = p ++ '\n' :: joinWith ['\n'] (q :: parts) :=
        joinWith_cons_cons _ _ _ _
      have hsplit : fedLines (p ++ '\n' :: joinWith ['\n'] (q :: parts)) =
          splitlines (p ++ '\n' :: (joinWith ['\n'] (q :: parts) ++ ['\n'])) := by
        rw [fedLines, List.append_assoc, List.cons_append]
      rw [hjoin, hsplit, splitlines_fed, List.flatMap_cons, ← ih (List.cons_ne_nil _ _)]
      rfl

/-- The line read so far ends up in front of the first line. -/
theorem splitlinesFrom_extend (hl : l ≠ []) (m t : PyStr) :
    splitlinesFrom (m ++ l) t = extendHead l.reverse (splitlinesFrom m t) := by
  induction m, t using splitlinesFrom.induct with
  | case1 m hm =>
    have hnil : m = [] := List.isEmpty_iff.mp hm
    subst hnil
    rw [List.nil_append, splitlinesFrom, if_neg (by simpa using hl)]
    rfl
  | case2 m hm =>
    have hml : (m ++ l).isEmpty = false := by
      rw [← Bool.not_eq_true, List.isEmpty_iff, List.append_eq_nil_iff]
      exact fun h => hl h.2
    rw [splitlinesFrom, splitlinesFrom, if_neg (by simp [hml]), if_neg hm, List.reverse_append]
    rfl
  | case3 m cs ih =>
    rw [splitlinesFrom, splitlinesFrom, List.reverse_append]
    rfl
  | case4 m c cs hcrlf hc ih =>
    rw [splitlinesFrom.eq_3 _ c cs hcrlf, splitlinesFrom.eq_3 _ c cs hcrlf, if_pos hc, if_pos hc,
      List.reverse_append]
    rfl
  | case5 m c cs hcrlf hc ih =>
    rw [splitlinesFrom.eq_3 _ c cs hcrlf, splitlinesFrom.eq_3 _ c cs hcrlf, if_neg hc, if_neg hc]
    exact ih

theorem splitlinesFrom_plains (hp : ∀ c ∈ p, isLineBreak c = false) (l t : PyStr) :
    splitlinesFrom l (p ++ t) = splitlinesFrom (p.reverse ++ l) t := by
  induction p generalizing l with
  | nil => rfl
  | cons c p ih =>
    rw [List.cons_append, splitlinesFrom_plain (hp c List.mem_cons_self),
      ih fun d hd => hp d (List.mem_cons_of_mem _ hd), List.reverse_cons, List.append_assoc]
    rfl

/-- Text behind a label continues on its own lines only. -/
theorem fedLines_label (hp : ∀ c ∈ p, isLineBreak c = false) (hne : p ≠ []) (s : PyStr) :
    fedLines (p ++ s) = (p ++ (fedLines s).headD []) :: continuation s := by
  have hrev : p.reverse ≠ [] := fun h => hne (List.reverse_eq_nil_iff.mp h)
  have hext := splitlinesFrom_extend hrev [] (s ++ ['\n'])
  rw [List.nil_append, List.reverse_reverse] at hext
  rw [fedLines, List.append_assoc, splitlines, splitlinesFrom_plains hp, List.append_nil, hext]
  unfold continuation fedLines splitlines
  cases splitlinesFrom [] (s ++ ['\n']) with
  | nil => rw [extendHead, List.headD_nil, List.append_nil, List.tail_nil]
  | cons line lines => rfl

theorem fedLines_line (hs : ∀ c ∈ s, isLineBreak c = false) : fedLines s = [s] := by
  rw [fedLines, splitlines, splitlinesFrom_plains hs, splitlinesFrom_feed, List.append_nil,
    List.reverse_reverse]
  rfl

theorem continuation_line (hs : ∀ c ∈ s, isLineBreak c = false) : continuation s = [] := by
  rw [continuation, fedLines_line hs]
  rfl

theorem rstripFeeds_self (hs : s.getLast? ≠ some '\n') : rstripFeeds s = s := by
  rw [rstripFeeds]
  cases hr : s.reverse with
  | nil =>
    rw [List.reverse_eq_nil_iff.mp hr]
    rfl
  | cons c cs =>
    have hc : c ≠ '\n' := by
      rintro rfl
      rw [List.getLast?_eq_head?_reverse, hr] at hs
      exact hs rfl
    have hd : (c :: cs).dropWhile (· == '\n') = c :: cs := List.dropWhile_cons_of_neg (by simpa using hc)
    rw [hd, ← hr, List.reverse_reverse]

theorem splitlinesFrom_unbroken (hl : ∀ c ∈ l, isLineBreak c = false) :
    ∀ line ∈ splitlinesFrom l s, ∀ c ∈ line, isLineBreak c = false := by
  have hrev (l : PyStr) (hl : ∀ c ∈ l, isLineBreak c = false) : ∀ c ∈ l.reverse, isLineBreak c = false :=
    fun c hc => hl c (List.mem_reverse.mp hc)
  induction l, s using splitlinesFrom.induct with
  | case1 l hnil =>
    rw [splitlinesFrom, if_pos hnil]
    simp
  | case2 l hnil =>
    rw [splitlinesFrom, if_neg hnil]
    intro line hline
    rw [List.mem_singleton.mp hline]
    exact hrev l hl
  | case3 l cs ih =>
    rw [splitlinesFrom]
    intro line hline
    rcases List.mem_cons.mp hline with rfl | hline
    · exact hrev l hl
    · exact ih (by simp) line hline
  | case4 l c cs hcrlf hc ih =>
    rw [splitlinesFrom.eq_3 _ c cs hcrlf, if_pos hc]
    intro line hline
    rcases List.mem_cons.mp hline with rfl | hline
    · exact hrev l hl
    · exact ih (by simp) line hline
  | case5 l c cs hcrlf hc ih =>
    rw [splitlinesFrom.eq_3 _ c cs hcrlf, if_neg hc]
    refine ih fun d hd => ?_
    rcases List.mem_cons.mp hd with rfl | hd
    · simpa using hc
    · exact hl d hd

/-- A line has no line break. -/
theorem splitlines_unbroken {line : PyStr} (h : line ∈ splitlines s) : ∀ c ∈ line, isLineBreak c = false :=
  splitlinesFrom_unbroken (by simp) line h

theorem joinWith_concat {sep : PyStr} {parts : List PyStr} (hne : parts ≠ []) :
    joinWith sep (parts ++ [p]) = joinWith sep parts ++ (sep ++ p) := by
  induction parts with
  | nil => exact (hne rfl).elim
  | cons q parts ih =>
    cases parts with
    | nil =>
      rw [joinWith_singleton]
      exact (joinWith_cons_cons sep q p []).trans (by rw [joinWith_singleton])
    | cons r parts =>
      have hcons : (r :: parts) ++ [p] = r :: (parts ++ [p]) := rfl
      rw [List.cons_append, hcons, joinWith_cons_cons, joinWith_cons_cons, ← hcons,
        ih (List.cons_ne_nil _ _)]
      simp only [List.append_assoc]

theorem lstrip_sub (h : c ∈ lstrip s) : c ∈ s :=
  (List.dropWhile_sublist _).mem h

theorem lstrip_lstrip (s : PyStr) : lstrip (lstrip s) = lstrip s := by
  cases hl : lstrip s with
  | nil => rfl
  | cons c t =>
    have hc : isSpace c = false := by
      have h := List.head?_dropWhile_not isSpace s
      rw [show s.dropWhile isSpace = c :: t from hl] at h
      simpa using h
    exact lstrip_cons hc

theorem strip_strip (s : PyStr) : strip (strip s) = strip s := by
  cases hs : strip s with
  | nil => rfl
  | cons c t =>
    refine strip_eq_self (fun d hd => ?_) fun d hd => ?_
    · obtain rfl : c = d := by simpa using hd
      have hl : lstrip s ≠ [] := by
        intro hnil
        rw [strip, hnil] at hs
        cases hs
      obtain ⟨e, u, hl⟩ := List.exists_cons_of_ne_nil hl
      have he : isSpace e = false := by
        have h := List.head?_dropWhile_not isSpace s
        rw [show s.dropWhile isSpace = e :: u from hl] at h
        simpa using h
      have hstrip : strip s = strip (e :: u) := by
        rw [strip, hl, strip, lstrip_cons he]
      obtain ⟨v, hv⟩ := strip_cons he u
      rw [hstrip, hv] at hs
      rw [← (List.cons.inj hs).1]
      exact he
    · rw [← hs, strip, rstrip, List.getLast?_reverse] at hd
      have h := List.head?_dropWhile_not isSpace (lstrip s).reverse
      rw [Option.mem_def.mp hd] at h
      simpa using h

theorem strip_sub (h : c ∈ strip s) : c ∈ s := by
  rw [strip, rstrip, List.mem_reverse] at h
  exact lstrip_sub (List.mem_reverse.mp ((List.dropWhile_sublist _).mem h))

/-- Lines that are joined and fed are read back. -/
theorem splitlines_joinFed {lines : List PyStr} (hlines : ∀ line ∈ lines, ∀ c ∈ line, isLineBreak c = false)
    (hne : lines ≠ []) : splitlines (joinWith ['\n'] lines ++ ['\n']) = lines := by
  have hfed : fedLines (joinWith ['\n'] lines) = lines.flatMap fedLines := fedLines_join hne
  rw [fedLines] at hfed
  rw [hfed]
  clear hfed hne
  induction lines with
  | nil => rfl
  | cons line lines ih =>
    rw [List.flatMap_cons, fedLines_line (hlines line List.mem_cons_self),
      ih fun q hq => hlines q (List.mem_cons_of_mem _ hq)]
    rfl

/-- Stripping the feeds of joined lines drops the empty ones at the end. -/
theorem rstripFeeds_join {lines : List PyStr} (hlines : ∀ line ∈ lines, ∀ c ∈ line, isLineBreak c = false) :
    rstripFeeds (joinWith ['\n'] lines) = joinWith ['\n'] (lines.rdropWhile (· == [])) := by
  induction lines using List.reverseRecOn with
  | nil => rfl
  | append_singleton lines line ih =>
    have hrest := ih fun q hq => hlines q (List.mem_append_left _ hq)
    by_cases hempty : line = []
    · subst hempty
      rw [List.rdropWhile_concat_pos _ _ _ rfl, ← hrest]
      by_cases hne : lines = []
      · rw [hne]
        rfl
      · rw [joinWith_concat hne, List.append_nil, rstripFeeds, rstripFeeds, List.reverse_append]
        rfl
    · have hlast : line.getLast? ≠ some '\n' := by
        intro hl
        have hbreak := hlines line (List.mem_append_right _ (List.mem_singleton_self _)) '\n'
          (List.mem_of_getLast? hl)
        revert hbreak
        decide
      have hjoin : (joinWith ['\n'] (lines ++ [line])).getLast? = line.getLast? := by
        by_cases hne : lines = []
        · rw [hne, List.nil_append, joinWith_singleton]
        · rw [joinWith_concat hne, ← List.append_assoc, List.getLast?_append_of_ne_nil _ hempty]
      rw [List.rdropWhile_concat_neg _ _ _ (by simpa using hempty)]
      exact rstripFeeds_self (hjoin ▸ hlast)

end Feeds
end Python
