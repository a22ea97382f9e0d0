import Danus.Lib.Lines
import Danus.Lib.Matching

/-! Where a text can occur in texts that are joined, stripped or split into lines. -/
namespace Python
open Matching

section Joined
variable {sep sub s t part : PyStr} {parts : List PyStr} {m : Char}

theorem joinWith_append (sep : PyStr) {as bs : List PyStr} (ha : as ≠ []) (hb : bs ≠ []) :
    joinWith sep (as ++ bs) = joinWith sep as ++ (sep ++ joinWith sep bs) := by
  induction as with
  | nil => exact (ha rfl).elim
  | cons a as ih =>
    cases as with
    | nil =>
      obtain ⟨b, bs, rfl⟩ := List.exists_cons_of_ne_nil hb
      rw [joinWith_singleton]
      exact joinWith_cons_cons _ _ _ _
    | cons a' as =>
      have h := ih (List.cons_ne_nil _ _)
      rw [List.cons_append, List.cons_append, joinWith_cons_cons, ← List.cons_append, h,
        joinWith_cons_cons]
      simp only [List.append_assoc]

/-- What has no mark in it lies on one side of the mark. -/
theorem infix_append_mark (hm : m ∉ sub) : sub <:+: s ++ m :: t ↔ sub <:+: s ∨ sub <:+: t := by
  constructor
  · rintro ⟨a, b, he⟩
    rw [List.append_assoc] at he
    rcases List.append_eq_append_iff.mp he with ⟨u, hs, hu⟩ | ⟨u, ha, hu⟩
    · have hp : sub <+: u := prefix_of_prefix_append_cons hm ⟨b, hu⟩
      refine .inl (hp.isInfix.trans ?_)
      rw [hs]
      exact (List.suffix_append a u).isInfix
    · cases u with
      | nil =>
        have hp : sub <+: [] := prefix_of_prefix_append_cons hm ⟨b, hu.symm⟩
        exact .inl (hp.isInfix.trans List.nil_infix)
      | cons c u =>
        obtain ⟨-, ht⟩ := List.cons.inj hu
        refine .inr ⟨u, b, ?_⟩
        rw [List.append_assoc]
        exact ht.symm
  · rintro (h | h)
    · exact h.trans (List.prefix_append s (m :: t)).isInfix
    · exact h.trans ((List.suffix_cons m t).trans (List.suffix_append s _)).isInfix

theorem infix_cons_mark (hm : m ∉ sub) (hne : sub ≠ []) : sub <:+: m :: t ↔ sub <:+: t := by
  have h := infix_append_mark (s := []) (t := t) hm
  rw [List.nil_append] at h
  rw [h, or_iff_right fun hs => hne (List.infix_nil.mp hs)]

/-- What shares no character with the separator lies on one side of it. -/
theorem infix_append_sep (hsep : sep ≠ []) (hm : ∀ c ∈ sep, c ∉ sub) (hne : sub ≠ []) :
    sub <:+: s ++ (sep ++ t) ↔ sub <:+: s ∨ sub <:+: t := by
  have hskip : ∀ marks : PyStr, (∀ c ∈ marks, c ∉ sub) → (sub <:+: marks ++ t ↔ sub <:+: t) := by
    intro marks hmarks
    induction marks with
    | nil => rfl
    | cons c marks ih =>
      rw [List.cons_append, infix_cons_mark (hmarks c List.mem_cons_self) hne]
      exact ih fun d hd => hmarks d (List.mem_cons_of_mem c hd)
  obtain ⟨c, marks, rfl⟩ := List.exists_cons_of_ne_nil hsep
  rw [List.cons_append, infix_append_mark (hm c List.mem_cons_self),
    hskip marks fun d hd => hm d (List.mem_cons_of_mem c hd)]

theorem infix_joinWith_of_mem (h : part ∈ parts) : part <:+: joinWith sep parts := by
  induction parts with
  | nil => exact absurd h List.not_mem_nil
  | cons a parts ih =>
    cases parts with
    | nil =>
      rw [List.mem_singleton.mp h, joinWith_singleton]
    | cons b parts =>
      rw [joinWith_cons_cons]
      rcases List.mem_cons.mp h with rfl | h
      · exact (List.prefix_append _ _).isInfix
      · exact (ih h).trans ((List.suffix_append sep _).trans (List.suffix_append a _)).isInfix

theorem infix_joinWith (hsep : sep ≠ []) (hm : ∀ c ∈ sep, c ∉ sub) (hne : sub ≠ []) :
    sub <:+: joinWith sep parts ↔ ∃ part ∈ parts, sub <:+: part := by
  constructor
  · intro h
    induction parts with
    | nil => exact absurd (List.infix_nil.mp h) hne
    | cons a parts ih =>
      cases parts with
      | nil =>
        rw [joinWith_singleton] at h
        exact ⟨a, List.mem_singleton_self a, h⟩
      | cons b parts =>
        rw [joinWith_cons_cons, infix_append_sep hsep hm hne] at h
        rcases h with h | h
        · exact ⟨a, List.mem_cons_self, h⟩
        · obtain ⟨part, hmem, hin⟩ := ih h
          exact ⟨part, List.mem_cons_of_mem _ hmem, hin⟩
  · rintro ⟨part, hmem, hin⟩
    exact hin.trans (infix_joinWith_of_mem hmem)

/-- The last part of a text stands at its end, alone or after the separator. -/
theorem joinWith_last (sep : PyStr) {last : PyStr} (h : last ∈ parts.getLast?) :
    ∃ before, joinWith sep parts = before ++ last ∧ (before = [] ∨ ∃ u, before = u ++ sep) := by
  obtain ⟨front, hf⟩ := List.getLast?_eq_some_iff.mp h
  by_cases hn : front = []
  · refine ⟨[], ?_, .inl rfl⟩
    rw [hf, hn, List.nil_append, List.nil_append, joinWith_singleton]
  · refine ⟨joinWith sep front ++ sep, ?_, .inr ⟨_, rfl⟩⟩
    rw [hf, joinWith_append sep hn (List.cons_ne_nil last []), joinWith_singleton, List.append_assoc]

/-- The last parts of a text stand in it together. -/
theorem joinWith_infix_append (sep : PyStr) (l l' : List PyStr) : joinWith sep l' <:+: joinWith sep (l ++ l') := by
  by_cases hl : l = []
  · rw [hl, List.nil_append]
  · by_cases hl' : l' = []
    · rw [hl']
      exact List.nil_infix
    · rw [joinWith_append sep hl hl']
      exact ((List.suffix_append sep _).trans (List.suffix_append _ _)).isInfix

end Joined

section Stripped
variable {sub s : PyStr}

theorem infix_lstrip (hs : ∀ c ∈ sub, isSpace c = false) (hne : sub ≠ []) : sub <:+: lstrip s ↔ sub <:+: s := by
  induction s with
  | nil => rfl
  | cons c s ih =>
    by_cases hc : isSpace c = true
    · have hm : c ∉ sub := fun hmem => by
        rw [hs c hmem] at hc
        cases hc
      rw [lstrip_cons_space hc, infix_cons_mark hm hne]
      exact ih
    · rw [lstrip_cons (Bool.not_eq_true _ ▸ hc)]

theorem infix_rstrip (hs : ∀ c ∈ sub, isSpace c = false) (hne : sub ≠ []) : sub <:+: rstrip s ↔ sub <:+: s := by
  have hrev : sub <:+: rstrip s ↔ sub.reverse <:+: lstrip s.reverse := by
    rw [← List.reverse_infix, rstrip, List.reverse_reverse]
    rfl
  have hl : sub.reverse <:+: lstrip s.reverse ↔ sub.reverse <:+: s.reverse :=
    infix_lstrip (fun c hc => hs c (List.mem_reverse.mp hc)) (mt List.reverse_eq_nil_iff.mp hne)
  rw [hrev, hl, List.reverse_infix]

theorem infix_strip (hs : ∀ c ∈ sub, isSpace c = false) (hne : sub ≠ []) : sub <:+: strip s ↔ sub <:+: s :=
  (infix_rstrip hs hne).trans (infix_lstrip hs hne)

/-- What has no line break in it lies in one line. -/
theorem infix_splitlinesFrom (hb : ∀ c ∈ sub, isLineBreak c = false) (hne : sub ≠ []) (line s : PyStr) :
    (∃ l ∈ splitlinesFrom line s, sub <:+: l) ↔ sub <:+: line.reverse ++ s := by
  have hmark : ∀ c, isLineBreak c = true → c ∉ sub := fun c hc hmem => by
    rw [hb c hmem] at hc
    cases hc
  induction line, s using splitlinesFrom.induct with
  | case1 line hl =>
    rw [List.isEmpty_iff.mp hl]
    refine iff_of_false ?_ fun h => hne (List.infix_nil.mp h)
    rintro ⟨l, hm, _⟩
    cases hm
  | case2 line hl =>
    rw [splitlinesFrom, if_neg hl, List.append_nil]
    constructor
    · rintro ⟨l, hm, h⟩
      exact List.mem_singleton.mp hm ▸ h
    · intro h
      exact ⟨_, List.mem_singleton_self _, h⟩
  | case3 line cs ih =>
    rw [splitlinesFrom, infix_append_mark (hmark '\r' (by decide)), infix_cons_mark (hmark '\n' (by decide)) hne,
      List.exists_mem_cons_iff]
    exact or_congr_right ih
  | case4 line c cs hcrlf hc ih =>
    rw [splitlinesFrom.eq_3 line c cs hcrlf, if_pos hc, infix_append_mark (hmark c hc), List.exists_mem_cons_iff]
    exact or_congr_right ih
  | case5 line c cs hcrlf hc ih =>
    have happ : line.reverse ++ c :: cs = (c :: line).reverse ++ cs := by
      rw [List.reverse_cons, List.append_assoc, List.singleton_append]
    rw [splitlinesFrom.eq_3 line c cs hcrlf, if_neg hc, happ]
    exact ih

theorem infix_splitlines (hb : ∀ c ∈ sub, isLineBreak c = false) (hne : sub ≠ []) :
    (∃ l ∈ splitlines s, sub <:+: l) ↔ sub <:+: s := infix_splitlinesFrom hb hne [] s

end Stripped
end Python
