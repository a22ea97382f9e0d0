import Danus.FactGraph.Fact
import Danus.Lib.Matching
import Mathlib.Data.List.DropRight

/-! The reviser's patch: blocks of edits, and what they do to the paper. -/
namespace Danus.WritePaper.ReviserPatch
open Python Matching
open Danus.FactGraph (Runtime)

/-- A text to find and its replacement. -/
abbrev Edit : Type := PyStr × PyStr

/-- `_REVISION_SUMMARY_SEP` -/
def revisionSummarySep : PyStr := "%%%REVISION_SUMMARY%%%".toList

/-- `_PATCH_SEP` -/
def patchSep : PyStr := "%%%PATCH%%%".toList

def findMark : PyStr := "<<<<<<< FIND".toList

def dividerMark : PyStr := "=======".toList

def replaceMark : PyStr := ">>>>>>> REPLACE".toList

/-- `\r?\n` -/
def newline : PyStr → Option PyStr
  | '\n' :: s => some s
  | '\r' :: '\n' :: s => some s
  | _ => none

/-- `\r?\n=======\r?\n` -/
def divider (s : PyStr) : Option PyStr := ((newline s).bind (literal dividerMark)).bind newline

/-- `\r?\n>>>>>>> REPLACE` -/
def blockEnd (s : PyStr) : Option PyStr := (newline s).bind (literal replaceMark)

/-- `(.*?)\r?\n>>>>>>> REPLACE` after a divider -/
def dividedEnd (s : PyStr) : Option (PyStr × PyStr) := (divider s).bind (lazily blockEnd)

/-- `_PATCH_BLOCK_RE.match` -/
def patchBlock (s : PyStr) : Option (Edit × PyStr) :=
  (((literal findMark s).bind newline).bind (lazily dividedEnd)).map fun r => ((r.1, r.2.1), r.2.2)

/-- `s.strip("\n")` -/
def stripNewlines (s : PyStr) : PyStr :=
  ((s.dropWhile (· = '\n')).reverse.dropWhile (· = '\n')).reverse

/-- `_FENCE_OPEN_RE.match` -/
def fenceOpen (t : PyStr) : Option PyStr :=
  (literal "```".toList t).bind fun rest =>
    match rest.dropWhile (· ≠ '\n') with
    | [] => none
    | _ :: body => some body

/-- `_strip_code_fence` -/
def stripCodeFence (s : PyStr) : PyStr :=
  match fenceOpen (stripNewlines s) with
  | none => s
  | some t =>
    let body := rstrip t
    (if "```".toList <:+ body then ((body.take (body.length - 3)).reverse.dropWhile (· = '\n')).reverse
    else t) ++ ['\n']

/-- `_split_reviser_patch` -/
def splitReviserPatch (stdout : PyStr) : PyStr × Option PyStr :=
  let (patchPart, summary) :=
    match cutFirst revisionSummarySep stdout with
    | some (patchPart, summaryPart) =>
      (patchPart, if strip summaryPart = [] then none else some (strip summaryPart))
    | none => (stdout, none)
  match cutFirst patchSep patchPart with
  | some (_, rest) => (rest, summary)
  | none => (patchPart, summary)

/-- Why an edit is skipped. -/
inductive PatchError where
  | emptyFind (index : Nat)
  | notFound (index : Nat) (find : PyStr)
  | notUnique (index n : Nat) (find : PyStr)
  deriving DecidableEq

namespace PatchError

/-- The edit that is reported. -/
def index : PatchError → Nat
  | emptyFind index => index
  | notFound index _ => index
  | notUnique index _ _ => index

/-- The text of the report. -/
def text [Runtime] : PatchError → PyStr
  | emptyFind index => "edit ".toList ++ natText index ++ ": empty FIND (skipped)".toList
  | notFound index find => "edit ".toList ++ natText index ++ ": FIND not found (skipped): ".toList ++
      Runtime.reprText (find.take 80)
  | notUnique index n find => "edit ".toList ++ natText index ++ ": FIND matches ".toList ++ natText n ++
      "× — not unique (skipped): ".toList ++ Runtime.reprText (find.take 80)

end PatchError

/-- The paper after a patch, how many edits were applied, and the reports on the others. -/
structure Patched where
  tex : PyStr
  applied : Nat
  errors : List PatchError
  deriving DecidableEq

/-- `text.replace(find, repl, 1)` -/
def replaceFirst (find repl text : PyStr) : PyStr :=
  match cutFirst find text with
  | some (before, after) => before ++ repl ++ after
  | none => text

/-- The edits of `_apply_reviser_patch`, from one index on. -/
def applyEdits : Nat → PyStr → List Edit → Patched
  | _, new, [] => ⟨new, 0, []⟩
  | i, new, (find, repl) :: edits =>
    if find = [] then
      let r := applyEdits (i + 1) new edits
      { r with errors := .emptyFind i :: r.errors }
    else
      match count find new with
      | 1 =>
        let r := applyEdits (i + 1) (replaceFirst find repl new) edits
        { r with applied := r.applied + 1 }
      | 0 =>
        let r := applyEdits (i + 1) new edits
        { r with errors := .notFound i find :: r.errors }
      | n =>
        let r := applyEdits (i + 1) new edits
        { r with errors := .notUnique i n find :: r.errors }

/-- `_PATCH_BLOCK_RE.findall` -/
def patchEdits (patchText : PyStr) : List Edit := findall patchBlock patchText

/-- `_apply_reviser_patch` -/
def applyReviserPatch (baseTex patchText : PyStr) : Patched := applyEdits 1 baseTex (patchEdits patchText)

/-- The patch text that `paper_revise` takes from what the reviser prints. -/
def patchTextOf (stdout : PyStr) : PyStr := (splitReviserPatch (stripCodeFence stdout)).1

section Format

/-- A line of a text. -/
def HasLine (text line : PyStr) : Prop := '\n' :: (line ++ ['\n']) <:+: '\n' :: (text ++ ['\n'])

instance (text line : PyStr) : Decidable (HasLine text line) := by
  unfold HasLine
  infer_instance

/-- No line of the text is a mark of the format, with either line ending. -/
def Unmarked (text : PyStr) : Prop :=
  ∀ mark ∈ [findMark, dividerMark, replaceMark, patchSep, revisionSummarySep],
    ¬ HasLine text mark ∧ ¬ HasLine text (mark ++ ['\r'])

instance (text : PyStr) : Decidable (Unmarked text) := by
  unfold Unmarked
  infer_instance

/-- An edit as the reviser writes it; an empty replacement may stand on no line at all. -/
structure Block where
  find : PyStr
  repl : PyStr
  bare : Bool := false
  bare_empty : bare = true → repl = [] := by decide
  find_unmarked : Unmarked find
  repl_unmarked : Unmarked repl

def Block.edit (b : Block) : Edit := (b.find, b.repl)

/-- The lines from the divider on. -/
def Block.tail (b : Block) : PyStr :=
  (if b.bare then [] else b.repl ++ ['\n']) ++ (replaceMark ++ ['\n'])

/-- A block in the format. -/
def Block.render (b : Block) : PyStr :=
  findMark ++ '\n' :: (b.find ++ '\n' :: (dividerMark ++ '\n' :: b.tail))

/-- What the reviser prints. -/
def render (blocks : List Block) (summary : PyStr) : PyStr :=
  patchSep ++ '\n' :: (blocks.flatMap Block.render ++ (revisionSummarySep ++ '\n' :: summary))

end Format

section Exact

/-- The text with its one occurrence of `find` replaced. -/
def replaceOnly (find repl text : PyStr) : Option PyStr :=
  match positions find text with
  | [i] => some (text.take i ++ repl ++ text.drop (i + find.length))
  | _ => none

/-- The text after each edit that finds its text at exactly one position, and the edits that do not. -/
def exactly : Nat → PyStr → List Edit → PyStr × List Nat
  | _, text, [] => (text, [])
  | i, text, (find, repl) :: edits =>
    match replaceOnly find repl text with
    | some text => exactly (i + 1) text edits
    | none => ((exactly (i + 1) text edits).1, i :: (exactly (i + 1) text edits).2)

/-- The edits are read back, applied where they find their text at one position, and else reported. -/
def Exact (baseTex : PyStr) (blocks : List Block) (summary : PyStr) : Prop :=
  let edits := blocks.map Block.edit
  let patchText := patchTextOf (render blocks summary)
  let patched := applyReviserPatch baseTex patchText
  patchEdits patchText = edits ∧ patched.tex = (exactly 1 baseTex edits).1 ∧
    patched.errors.map PatchError.index = (exactly 1 baseTex edits).2 ∧
    patched.applied + patched.errors.length = edits.length

/-- Neither text of the edit ends in a carriage return or has the summary's mark in it, no line of the
replacement but the first starts like the end of a block, and an empty one stands on a line of its own. -/
def Block.Readable (b : Block) : Prop :=
  b.bare = false ∧ b.find.getLast? ≠ some '\r' ∧ b.repl.getLast? ≠ some '\r' ∧
    ¬ '\n' :: replaceMark <:+: b.repl ∧ ¬ revisionSummarySep <:+: b.find ∧ ¬ revisionSummarySep <:+: b.repl

/-- Where the text occurs at more than one position, two of them do not overlap; and an empty text is not
looked for in an empty one. -/
def Apart (find text : PyStr) : Prop :=
  (1 < (positions find text).length →
    ∃ i ∈ positions find text, ∃ j ∈ positions find text, i < j ∧ i + find.length ≤ j) ∧
    ¬ (find = [] ∧ text = [])

/-- Each edit, in the text that the edits before it leave. -/
def AllApart : PyStr → List Edit → Prop
  | _, [] => True
  | text, (find, repl) :: edits =>
    Apart find text ∧ AllApart ((replaceOnly find repl text).getD text) edits

end Exact

section Edits
variable {find repl text : PyStr} {edits : List Edit} {i k : Nat}

/-- Every edit is either applied or reported. -/
theorem applied_add_errors (i : Nat) (text : PyStr) (edits : List Edit) :
    (applyEdits i text edits).applied + (applyEdits i text edits).errors.length = edits.length := by
  fun_induction applyEdits i text edits with
  | case1 => rfl
  | case2 i text repl edits r ih => simpa [r, ← Nat.add_assoc] using ih
  | case3 i text find repl edits hne hc r ih =>
    simp only [List.length_cons]
    rw [← ih, Nat.add_right_comm]
  | case4 i text find repl edits hne hc r ih => simpa [r, ← Nat.add_assoc] using ih
  | case5 i text find repl edits hne h0 h1 r ih => simpa [r, ← Nat.add_assoc] using ih

/-- The reports are on the edits from the first index on. -/
theorem le_index_applyEdits (hk : k ∈ (applyEdits i text edits).errors.map PatchError.index) : i ≤ k := by
  fun_induction applyEdits i text edits with
  | case1 => cases hk
  | case2 i text repl edits r ih =>
    rcases List.mem_cons.mp hk with rfl | hk
    · exact Nat.le_refl _
    · exact Nat.le_of_succ_le (ih hk)
  | case3 i text find repl edits hne hc r ih => exact Nat.le_of_succ_le (ih hk)
  | case4 i text find repl edits hne hc r ih =>
    rcases List.mem_cons.mp hk with rfl | hk
    · exact Nat.le_refl _
    · exact Nat.le_of_succ_le (ih hk)
  | case5 i text find repl edits hne h0 h1 r ih =>
    rcases List.mem_cons.mp hk with rfl | hk
    · exact Nat.le_refl _
    · exact Nat.le_of_succ_le (ih hk)

theorem le_index_exactly (hk : k ∈ (exactly i text edits).2) : i ≤ k := by
  fun_induction exactly i text edits with
  | case1 => cases hk
  | case2 i text find repl edits text' h ih => exact Nat.le_of_succ_le (ih hk)
  | case3 i text find repl edits h ih =>
    rcases List.mem_cons.mp hk with rfl | hk
    · exact Nat.le_refl _
    · exact Nat.le_of_succ_le (ih hk)

/-- One place alone is counted once, and the first place is the one. -/
theorem replaceOnly_single (hne : find ≠ []) (h : positions find text = [i]) :
    count find text = 1 ∧ replaceOnly find repl text = some (replaceFirst find repl text) := by
  have hzero : count find text ≠ 0 := fun h0 => by
    rw [count_eq_zero hne, h] at h0
    cases h0
  have htwo : ¬ 2 ≤ count find text := fun h2 => by
    obtain ⟨a, ha, b, hb, hle⟩ := (two_le_count hne).mp h2
    rw [h, List.mem_singleton] at ha hb
    have hpos : 0 < find.length := List.length_pos_of_ne_nil hne
    omega
  refine ⟨by omega, ?_⟩
  cases hc : cutFirst find text with
  | none => exact absurd (count_of_none hc) hzero
  | some r =>
    obtain ⟨x, t⟩ := r
    obtain ⟨hs, -⟩ := cutFirst_some hc
    have hx : x.length = i := by
      have hmem : x.length ∈ positions find text := by
        rw [hs]
        exact mem_positions_append
      rwa [h, List.mem_singleton] at hmem
    have htake : text.take i = x := by rw [hs, ← hx, List.append_assoc, List.take_left]
    have hdrop : text.drop (i + find.length) = t := by
      rw [hs, ← hx, ← List.length_append, List.drop_left]
    rw [replaceOnly, h, replaceFirst, hc]
    simp only [htake, hdrop]

/-- An edit whose text does not overlap itself is counted once where it has one place. -/
theorem count_eq_one_iff (hne : find ≠ []) (hap : Apart find text) :
    count find text = 1 ↔ ∃ i, positions find text = [i] := by
  constructor
  · intro h1
    match hp : positions find text with
    | [] =>
      rw [(count_eq_zero hne).mpr hp] at h1
      cases h1
    | [i] => exact ⟨i, rfl⟩
    | i :: j :: l =>
      obtain ⟨a, ha, b, hb, -, hle⟩ := hap.1 (by rw [hp]; simp)
      have h2 := (two_le_count hne).mpr ⟨a, ha, b, hb, hle⟩
      omega
  · rintro ⟨i, hi⟩
    exact (@replaceOnly_single _ [] _ _ hne hi).1

theorem replaceOnly_eq_none (h : ∀ i, positions find text ≠ [i]) : replaceOnly find repl text = none := by
  rw [replaceOnly]
  split
  · exact absurd ‹_› (h _)
  · rfl

/-- An empty text is found at more than one position of any other. -/
theorem positions_nil_ne (hne : text ≠ []) : ∀ i, positions [] text ≠ [i] := by
  intro i hp
  have h0 : 0 ∈ positions [] text := mem_positions.mpr ⟨Nat.zero_le _, List.nil_prefix⟩
  have h1 : 1 ∈ positions [] text :=
    mem_positions.mpr ⟨List.length_pos_of_ne_nil hne, List.nil_prefix⟩
  rw [hp, List.mem_singleton] at h0 h1
  omega

theorem positions_nil_nil : positions ([] : PyStr) [] = [0] := by decide

/-- The edits are those of the exact run where no text overlaps itself. -/
theorem applyEdits_exact (h : AllApart text edits) :
    (applyEdits i text edits).tex = (exactly i text edits).1 ∧
      (applyEdits i text edits).errors.map PatchError.index = (exactly i text edits).2 := by
  induction edits generalizing i text with
  | nil => exact ⟨rfl, rfl⟩
  | cons e edits ih =>
    obtain ⟨find, repl⟩ := e
    obtain ⟨hap, hrest⟩ := h
    by_cases hne : find = []
    · subst hne
      have hnone : replaceOnly [] repl text = none :=
        replaceOnly_eq_none (positions_nil_ne fun ht => hap.2 ⟨rfl, ht⟩)
      rw [hnone, Option.getD_none] at hrest
      obtain ⟨htex, herr⟩ := ih (i := i + 1) hrest
      rw [applyEdits, if_pos rfl, exactly, hnone]
      exact ⟨htex, congrArg (i :: ·) herr⟩
    · by_cases h1 : count find text = 1
      · obtain ⟨p, hp⟩ := (count_eq_one_iff hne hap).mp h1
        have hsome := (@replaceOnly_single _ repl _ _ hne hp).2
        rw [hsome, Option.getD_some] at hrest
        rw [applyEdits, if_neg hne, h1, exactly, hsome]
        exact ih hrest
      · have hnone : replaceOnly find repl text = none :=
          replaceOnly_eq_none fun p hp => h1 ((count_eq_one_iff hne hap).mpr ⟨p, hp⟩)
        rw [hnone, Option.getD_none] at hrest
        obtain ⟨htex, herr⟩ := ih (i := i + 1) hrest
        rw [applyEdits, if_neg hne, exactly, hnone]
        split
        · exact absurd ‹_› h1
        · exact ⟨htex, congrArg (i :: ·) herr⟩
        · exact ⟨htex, congrArg (i :: ·) herr⟩

/-- An edit that is not apart is reported by only one of the two runs. -/
theorem allApart_of_reports
    (h : (applyEdits i text edits).errors.map PatchError.index = (exactly i text edits).2) :
    AllApart text edits := by
  induction edits generalizing i text with
  | nil => trivial
  | cons e edits ih =>
    obtain ⟨find, repl⟩ := e
    have hlate : ∀ {text'}, i ∉ (applyEdits (i + 1) text' edits).errors.map PatchError.index :=
      fun hm => Nat.lt_irrefl _ (le_index_applyEdits hm)
    have hlate' : ∀ {text'}, i ∉ (exactly (i + 1) text' edits).2 :=
      fun hm => Nat.lt_irrefl _ (le_index_exactly hm)
    by_cases hne : find = []
    · subst hne
      rw [applyEdits, if_pos rfl] at h
      by_cases ht : text = []
      · subst ht
        have hsome : replaceOnly [] repl [] = some repl := by
          rw [replaceOnly, positions_nil_nil]
          simp
        rw [exactly, hsome] at h
        change i :: _ = (exactly (i + 1) repl edits).2 at h
        exact absurd (h ▸ List.mem_cons_self) hlate'
      · have hnone : replaceOnly [] repl text = none := replaceOnly_eq_none (positions_nil_ne ht)
        rw [exactly, hnone] at h
        refine ⟨⟨fun _ => ⟨0, ?_, 1, ?_, Nat.zero_lt_one, Nat.zero_le _⟩, fun hc => ht hc.2⟩, ?_⟩
        · exact mem_positions.mpr ⟨Nat.zero_le _, List.nil_prefix⟩
        · exact mem_positions.mpr ⟨List.length_pos_of_ne_nil ht, List.nil_prefix⟩
        · rw [hnone, Option.getD_none]
          exact ih (List.cons.inj h).2
    · rw [applyEdits, if_neg hne] at h
      by_cases hsingle : ∃ p, positions find text = [p]
      · obtain ⟨p, hp⟩ := hsingle
        obtain ⟨h1, hsome⟩ := @replaceOnly_single _ repl _ _ hne hp
        rw [h1, exactly, hsome] at h
        refine ⟨⟨fun hlen => ?_, fun hc => hne hc.1⟩, ?_⟩
        · rw [hp] at hlen
          exact absurd hlen (Nat.lt_irrefl 1)
        · rw [hsome, Option.getD_some]
          exact ih h
      · have hnone : replaceOnly find repl text = none :=
          replaceOnly_eq_none fun p hp => hsingle ⟨p, hp⟩
        rw [exactly, hnone] at h
        have h1 : count find text ≠ 1 := fun h1 => by
          rw [h1] at h
          change (applyEdits (i + 1) _ edits).errors.map PatchError.index = i :: _ at h
          exact absurd (h ▸ List.mem_cons_self) hlate
        refine ⟨⟨fun hlen => ?_, fun hc => hne hc.1⟩, ?_⟩
        · have hzero : count find text ≠ 0 := fun h0 => by
            rw [(count_eq_zero hne).mp h0] at hlen
            cases hlen
          obtain ⟨a, ha, b, hb, hle⟩ := (two_le_count hne).mp (by omega : 2 ≤ count find text)
          have hpos : 0 < find.length := List.length_pos_of_ne_nil hne
          exact ⟨a, ha, b, hb, by omega, hle⟩
        · rw [hnone, Option.getD_none]
          refine ih (i := i + 1) ?_
          split at h
          · exact absurd ‹_› h1
          · exact (List.cons.inj h).2
          · exact (List.cons.inj h).2

end Edits

section Blocks
variable {x y s t u : PyStr} {b : Block}

theorem newline_some (h : newline s = some t) : s = '\n' :: t ∨ s = '\r' :: '\n' :: t := by
  unfold newline at h
  split at h
  · cases h
    exact .inl rfl
  · cases h
    exact .inr rfl
  · cases h

theorem divider_some (h : divider s = some u) : ∃ t, newline s = some (dividerMark ++ t) ∧ newline t = some u := by
  obtain ⟨t, ht, hu⟩ := Option.bind_eq_some_iff.mp h
  obtain ⟨s', hs, hl⟩ := Option.bind_eq_some_iff.mp ht
  cases literal_some hl
  exact ⟨t, hs, hu⟩

theorem divider_line (s : PyStr) : divider ('\n' :: (dividerMark ++ '\n' :: s)) = some s := by
  rw [divider, newline, Option.bind_some, literal_append, Option.bind_some, newline]

theorem divider_cr (s : PyStr) : divider ('\r' :: '\n' :: (dividerMark ++ '\n' :: s)) = some s := by
  rw [divider, newline, Option.bind_some, literal_append, Option.bind_some, newline]

/-- A line of a text, up to the end of the text or to the next line end. -/
theorem hasLine_of_suffix (hs : '\n' :: (t ++ u) <:+ '\n' :: x) (hu : u = [] ∨ ∃ v, u = '\n' :: v) :
    HasLine x t := by
  obtain ⟨w, hw⟩ := hs
  have hx : '\n' :: (x ++ ['\n']) = w ++ '\n' :: (t ++ u) ++ ['\n'] := by rw [hw, List.cons_append]
  rw [HasLine, hx]
  rcases hu with rfl | ⟨v, rfl⟩
  · exact ⟨w, [], by simp⟩
  · exact ⟨w, v ++ ['\n'], by simp⟩

/-- No divider is read within a text whose lines are none, but for a carriage return before the divider. -/
theorem divider_inside (hx : Unmarked x) (hy : y <:+ '\n' :: x)
    (h : divider (y ++ '\n' :: (dividerMark ++ '\n' :: s)) = some u) : (y = [] ∨ y = ['\r']) ∧ u = s := by
  obtain ⟨t, ht, hu⟩ := divider_some h
  obtain ⟨hplain, hcr⟩ := hx dividerMark (by decide)
  -- a divider after a line end within the text would be one of its lines
  have hline : ∀ z, '\n' :: z <:+ '\n' :: x → z ++ '\n' :: (dividerMark ++ '\n' :: s) = dividerMark ++ t → False := by
    intro z hz he
    obtain ⟨v, rfl⟩ := prefix_of_prefix_append_cons (y := z) (by decide : '\n' ∉ dividerMark) ⟨t, he.symm⟩
    rw [List.append_assoc] at he
    have hv := List.append_cancel_left he
    rcases newline_some hu with rfl | rfl
    · match v with
      | [] => exact hplain (hasLine_of_suffix hz (.inl rfl))
      | c :: v =>
        cases hv
        exact hplain (hasLine_of_suffix hz (.inr ⟨v, rfl⟩))
    · match v with
      | [] => cases hv
      | [c] =>
        cases hv
        exact hcr (hasLine_of_suffix (u := []) (by simpa using hz) (.inl rfl))
      | c :: d :: v =>
        cases hv
        exact hcr (hasLine_of_suffix (u := '\n' :: v) (by simpa using hz) (.inr ⟨v, rfl⟩))
  have hend : '\n' :: (dividerMark ++ '\n' :: s) = '\n' :: (dividerMark ++ t) → u = s := by
    intro he
    have ht' : '\n' :: s = t := List.append_cancel_left (List.cons.inj he).2
    rw [← ht', newline] at hu
    exact (Option.some.inj hu).symm
  match y with
  | [] =>
    rcases newline_some ht with he | he
    · exact ⟨.inl rfl, hend he⟩
    · cases he
  | [c] =>
    rcases newline_some ht with he | he
    · obtain ⟨hc, he'⟩ := List.cons.inj he
      exact (hline [] (hc ▸ hy) he').elim
    · obtain ⟨hc, he'⟩ := List.cons.inj he
      exact ⟨.inr (by rw [hc]), hend he'⟩
  | c :: d :: z =>
    rcases newline_some ht with he | he
    · obtain ⟨hc, he'⟩ := List.cons.inj he
      exact (hline (d :: z) (hc ▸ hy) he').elim
    · obtain ⟨hd, he'⟩ := List.cons.inj (List.cons.inj he).2
      subst hd
      exact (hline z ((List.suffix_cons c _).trans hy) he').elim

/-- A divider takes nine characters at least. -/
theorem divider_suffix (h : divider s = some u) : u <:+ s ∧ u.length + 9 ≤ s.length := by
  obtain ⟨t, ht, hu⟩ := divider_some h
  have hlen : dividerMark.length = 7 := rfl
  have hsuf : u <:+ t ∧ u.length + 1 ≤ t.length := by
    rcases newline_some hu with rfl | rfl
    · exact ⟨List.suffix_cons _ _, by simp⟩
    · exact ⟨(List.suffix_cons _ _).trans (List.suffix_cons _ _), by simp⟩
  have hmark : u <:+ dividerMark ++ t := hsuf.1.trans (List.suffix_append _ _)
  rcases newline_some ht with rfl | rfl
  · refine ⟨hmark.trans (List.suffix_cons _ _), ?_⟩
    simp only [List.length_cons, List.length_append]
    omega
  · refine ⟨hmark.trans ((List.suffix_cons _ _).trans (List.suffix_cons _ _)), ?_⟩
    simp only [List.length_cons, List.length_append]
    omega

theorem suffix_append_cases (h : t <:+ x ++ s) : t <:+ s ∨ ∃ y, y ≠ [] ∧ y <:+ x ∧ t = y ++ s := by
  obtain ⟨w, hw⟩ := h
  rcases List.append_eq_append_iff.mp hw with ⟨y, rfl, rfl⟩ | ⟨y, rfl, rfl⟩
  · by_cases hy : y = []
    · exact .inl (by simp [hy])
    · exact .inr ⟨y, hy, List.suffix_append _ _, rfl⟩
  · exact .inl (List.suffix_append _ _)

theorem newline_mark {mark : PyStr} (hm : ∀ c ∈ mark, c ≠ '\n' ∧ c ≠ '\r') (hy : y ≠ []) (hs : y <:+ mark) :
    newline (y ++ s) = none := by
  cases y with
  | nil => exact absurd rfl hy
  | cons c y =>
    obtain ⟨h1, h2⟩ := hm c (hs.subset List.mem_cons_self)
    cases h : newline (c :: y ++ s) with
    | none => rfl
    | some t =>
      rcases newline_some h with he | he
      · exact absurd (List.cons.inj he).1 h1
      · exact absurd (List.cons.inj he).1 h2

/-- The text of a block and what follows it. -/
theorem render_append (b : Block) (s : PyStr) : b.render ++ s =
    findMark ++ ('\n' :: b.find ++ ('\n' :: (dividerMark ++ '\n' :: (b.tail ++ s)))) := by
  simp [Block.render]

theorem patchBlock_render (b : Block) (s : PyStr) : patchBlock (b.render ++ s) =
    (lazily dividedEnd (b.find ++ '\n' :: (dividerMark ++ '\n' :: (b.tail ++ s)))).map
      fun r => ((r.1, r.2.1), r.2.2) := by
  rw [patchBlock, render_append, literal_append, Option.bind_some, List.cons_append, newline,
    Option.bind_some]

theorem dividedEnd_line (s : PyStr) : dividedEnd ('\n' :: (dividerMark ++ '\n' :: s)) = lazily blockEnd s := by
  rw [dividedEnd, divider_line, Option.bind_some]

/-- Without an end after the divider no block is read from the text. -/
theorem findall_eq_nil_of_no_end (h : lazily blockEnd (b.tail ++ s) = none) :
    findall patchBlock (b.render ++ s) = [] := by
  have hnone : ∀ {u}, u <:+ b.tail ++ s → lazily blockEnd u = none := fun hu =>
    lazily_eq_none fun t ht => cont_eq_none h (ht.trans hu)
  have hdiv : ∀ t, t <:+ b.render ++ s → dividedEnd t = none := by
    intro t ht
    cases hd : divider t with
    | none => rw [dividedEnd, hd, Option.bind_none]
    | some u =>
      rw [dividedEnd, hd, Option.bind_some]
      rw [render_append] at ht
      rcases suffix_append_cases ht with ht | ⟨z, hz, hsuf, rfl⟩
      · rcases suffix_append_cases ht with ht | ⟨y, hy, hsuf, rfl⟩
        · obtain ⟨hu, hlen⟩ := divider_suffix hd
          have hle := ht.length_le
          have hseven : dividerMark.length = 7 := rfl
          have hwhole : b.tail ++ s <:+ '\n' :: (dividerMark ++ '\n' :: (b.tail ++ s)) :=
            ((List.suffix_cons _ _).trans (List.suffix_append _ _)).trans (List.suffix_cons _ _)
          refine hnone (List.suffix_of_suffix_length_le (hu.trans ht) hwhole ?_)
          simp only [List.length_cons, List.length_append] at hle ⊢
          omega
        · obtain ⟨-, rfl⟩ := divider_inside b.find_unmarked hsuf hd
          exact hnone (List.suffix_refl _)
      · obtain ⟨t', ht', -⟩ := divider_some hd
        rw [newline_mark (by decide) hz hsuf] at ht'
        cases ht'
  refine findall_eq_nil fun t ht => ?_
  rw [patchBlock, Option.map_eq_none_iff]
  cases hl : (literal findMark t).bind newline with
  | none => rfl
  | some u =>
    obtain ⟨v, hv, hu⟩ := Option.bind_eq_some_iff.mp hl
    have hvt : v <:+ t := by
      rw [literal_some hv]
      exact List.suffix_append _ _
    have hut : u <:+ v := by
      rcases newline_some hu with rfl | rfl
      · exact List.suffix_cons _ _
      · exact (List.suffix_cons _ _).trans (List.suffix_cons _ _)
    rw [Option.bind_some]
    exact lazily_eq_none fun w hw => hdiv w (hw.trans (hut.trans (hvt.trans ht)))

/-- No end of a block is read within a replacement that has none. -/
theorem blockEnd_inside (hcr : x.getLast? ≠ some '\r') (hx : ¬ '\n' :: replaceMark <:+: x) (hy : y ≠ [])
    (hs : y <:+ x) : blockEnd (y ++ '\n' :: (replaceMark ++ s)) = none := by
  have hline : ∀ z, '\n' :: z <:+ x → literal replaceMark (z ++ '\n' :: (replaceMark ++ s)) = none := by
    refine fun z hz => literal_eq_none fun hp => hx ?_
    have hpre : replaceMark <+: z := prefix_of_prefix_append_cons (by decide) hp
    exact ((List.prefix_cons_inj _).mpr hpre).isInfix.trans hz.isInfix
  cases hn : newline (y ++ '\n' :: (replaceMark ++ s)) with
  | none => rw [blockEnd, hn, Option.bind_none]
  | some t =>
    rw [blockEnd, hn, Option.bind_some]
    match y with
    | [c] =>
      rcases newline_some hn with he | he
      · obtain ⟨hc, he'⟩ := List.cons.inj he
        subst hc
        rw [← he']
        exact hline [] hs
      · obtain ⟨hc, he'⟩ := List.cons.inj he
        obtain ⟨w, rfl⟩ := hs
        rw [hc, List.getLast?_concat] at hcr
        exact absurd rfl hcr
    | c :: d :: z =>
      rcases newline_some hn with he | he
      · obtain ⟨hc, he'⟩ := List.cons.inj he
        subst hc
        rw [← he']
        exact hline (d :: z) hs
      · obtain ⟨hd, he'⟩ := List.cons.inj (List.cons.inj he).2
        subst hd
        rw [← he']
        exact hline z ((List.suffix_cons c _).trans hs)

/-- The tail of a block whose replacement stands on lines of its own. -/
theorem tail_append (hb : b.bare = false) (s : PyStr) :
    b.tail ++ s = b.repl ++ '\n' :: (replaceMark ++ '\n' :: s) := by
  rw [Block.tail, hb]
  simp

theorem blockEnd_line (s : PyStr) : blockEnd ('\n' :: (replaceMark ++ s)) = some s := by
  rw [blockEnd, newline, Option.bind_some, literal_append]

theorem blockEnd_cr (s : PyStr) : blockEnd ('\r' :: '\n' :: (replaceMark ++ s)) = some s := by
  rw [blockEnd, newline, Option.bind_some, literal_append]

/-- The find text is read whole unless it ends in a carriage return. -/
theorem lazily_dividedEnd (hcr : b.find.getLast? ≠ some '\r') {r : PyStr × PyStr}
    (h : lazily blockEnd (b.tail ++ s) = some r) :
    lazily dividedEnd (b.find ++ '\n' :: (dividerMark ++ '\n' :: (b.tail ++ s))) = some (b.find, r) := by
  refine lazily_append (fun y hy hs => ?_) ((dividedEnd_line _).trans h)
  cases hd : divider (y ++ '\n' :: (dividerMark ++ '\n' :: (b.tail ++ s))) with
  | none => rw [dividedEnd, hd, Option.bind_none]
  | some u =>
    obtain ⟨hy' | rfl, -⟩ := divider_inside b.find_unmarked (hs.trans (List.suffix_cons _ _)) hd
    · exact absurd hy' hy
    · obtain ⟨w, hw⟩ := hs
      rw [← hw, List.getLast?_concat] at hcr
      exact absurd rfl hcr

/-- What the rendered block starts with and ends in. -/
theorem render_eq_cons (b : Block) (s : PyStr) : ∃ x, b.render ++ s = '<' :: (x ++ '\n' :: s) := by
  obtain ⟨mark, hmark⟩ : ∃ mark, findMark = '<' :: mark := ⟨_, rfl⟩
  refine ⟨mark ++ '\n' :: (b.find ++ '\n' :: (dividerMark ++ '\n' ::
    ((if b.bare then [] else b.repl ++ ['\n']) ++ replaceMark))), ?_⟩
  simp only [Block.render, Block.tail, hmark, List.cons_append, List.append_assoc, List.nil_append]

theorem findall_newline (s : PyStr) : findall patchBlock ('\n' :: s) = findall patchBlock s := by
  refine findall_of_none ?_
  rw [patchBlock, literal_eq_none]
  · rfl
  · rintro ⟨t, ht⟩
    cases ht

/-- A readable block is read back, and the rest after it. -/
theorem findall_render (hb : b.Readable) (s : PyStr) :
    findall patchBlock (b.render ++ s) = b.edit :: findall patchBlock s := by
  obtain ⟨hbare, hfind, hrepl, hend, -, -⟩ := hb
  have hlazy : lazily blockEnd (b.tail ++ s) = some (b.repl, '\n' :: s) := by
    rw [tail_append hbare]
    exact lazily_append (fun y hy hs => blockEnd_inside hrepl hend hy hs) (blockEnd_line _)
  have hmatch : patchBlock (b.render ++ s) = some (b.edit, '\n' :: s) := by
    rw [patchBlock_render, lazily_dividedEnd hfind hlazy]
    rfl
  obtain ⟨x, hx⟩ := render_eq_cons b s
  rw [hx] at hmatch ⊢
  rw [findall_of_some hmatch, findall_newline]

/-- Only a readable block is read back, whatever follows it. -/
theorem readable_of_findall {edits : List Edit} (h : findall patchBlock (b.render ++ s) = b.edit :: edits) :
    b.bare = false ∧ b.find.getLast? ≠ some '\r' ∧ b.repl.getLast? ≠ some '\r' ∧
      ¬ '\n' :: replaceMark <:+: b.repl := by
  -- the match at the first mark, with the find text that it reads
  obtain ⟨r, hr⟩ : ∃ r, lazily blockEnd (b.tail ++ s) = some r := by
    cases hl : lazily blockEnd (b.tail ++ s) with
    | some r => exact ⟨r, rfl⟩
    | none =>
      rw [findall_eq_nil_of_no_end hl] at h
      cases h
  have hread : ∀ {f p}, lazily dividedEnd (b.find ++ '\n' :: (dividerMark ++ '\n' :: (b.tail ++ s))) =
      some (f, p) → f = b.find ∧ p.1 = b.repl := by
    intro f p hp
    have hmatch : patchBlock (b.render ++ s) = some ((f, p.1), p.2) := by
      rw [patchBlock_render, hp, Option.map_some]
    obtain ⟨x, hx⟩ := render_eq_cons b s
    rw [hx] at hmatch h
    obtain ⟨l, hl⟩ := findall_head hmatch
    have he := (List.cons.inj (hl.symm.trans h)).1
    exact ⟨congrArg Prod.fst he, congrArg Prod.snd he⟩
  have hfind : b.find.getLast? ≠ some '\r' := by
    intro hcr
    obtain ⟨f, hf⟩ := List.getLast?_eq_some_iff.mp hcr
    have hcont : dividedEnd ('\r' :: '\n' :: (dividerMark ++ '\n' :: (b.tail ++ s))) = some r := by
      rw [dividedEnd, divider_cr, Option.bind_some, hr]
    obtain ⟨y, p, hy, hle⟩ := lazily_le (x := f) hcont
    have hy' : y = b.find := (hread (by rw [hf, List.append_assoc]; exact hy)).1
    rw [hy', hf, List.length_append] at hle
    simp at hle
  have hrepl : r.1 = b.repl := (hread (lazily_dividedEnd hfind hr)).2
  have hbare : b.bare = false := by
    cases hb : b.bare with
    | false => rfl
    | true =>
      obtain ⟨t, ht, hcont⟩ := lazily_some (x := r.1) (b := r.2) hr
      rw [hrepl, b.bare_empty hb, List.nil_append] at ht
      rw [← ht, Block.tail, hb] at hcont
      cases hcont
  rw [tail_append hbare] at hr
  have hshort : ∀ x t q, b.repl ++ '\n' :: (replaceMark ++ '\n' :: s) = x ++ t → blockEnd t = some q →
      b.repl.length ≤ x.length := by
    intro x t q he hq
    obtain ⟨y, p, hy, hle⟩ := lazily_le (x := x) hq
    rw [← he, hr] at hy
    rw [← hrepl, Option.some.inj hy]
    exact hle
  refine ⟨hbare, hfind, fun hcr => ?_, ?_⟩
  · obtain ⟨f, hf⟩ := List.getLast?_eq_some_iff.mp hcr
    have hle := hshort f _ _ (by rw [hf, List.append_assoc]; rfl) (blockEnd_cr ('\n' :: s))
    rw [hf, List.length_append] at hle
    simp at hle
  · rintro ⟨x, v, hv⟩
    have he : b.repl ++ '\n' :: (replaceMark ++ '\n' :: s) =
        x ++ '\n' :: (replaceMark ++ (v ++ '\n' :: (replaceMark ++ '\n' :: s))) := by
      rw [← hv]
      simp only [List.append_assoc, List.cons_append]
    have hle := hshort x _ _ he (blockEnd_line _)
    rw [← hv] at hle
    simp only [List.length_append, List.length_cons] at hle
    omega

/-- What is read is part of the text. -/
theorem infix_of_mem {e : Edit} (h : e ∈ findall patchBlock s) : e.1 <:+: s ∧ e.2 <:+: s := by
  obtain ⟨t, rest, ht, hm⟩ := mem_findallFrom h
  obtain ⟨⟨f, r, rest'⟩, hb, he⟩ := Option.map_eq_some_iff.mp hm
  cases he
  obtain ⟨u, hu, hl⟩ := Option.bind_eq_some_iff.mp hb
  obtain ⟨v, hv, hn⟩ := Option.bind_eq_some_iff.mp hu
  have hus : u <:+ s := by
    have hvt : v <:+ t := by
      rw [literal_some hv]
      exact List.suffix_append _ _
    rcases newline_some hn with rfl | rfl
    · exact (List.suffix_cons _ _).trans (hvt.trans ht)
    · exact ((List.suffix_cons _ _).trans (List.suffix_cons _ _)).trans (hvt.trans ht)
  obtain ⟨w, rfl, hw⟩ := lazily_some hl
  obtain ⟨d, hd, hr⟩ := Option.bind_eq_some_iff.mp hw
  obtain ⟨z, rfl, -⟩ := lazily_some hr
  refine ⟨(List.prefix_append f w).isInfix.trans hus.isInfix, ?_⟩
  have hdw := (divider_suffix hd).1.trans (List.suffix_append f w)
  exact (List.prefix_append r z).isInfix.trans (hdw.trans hus).isInfix

end Blocks

section Output
variable {blocks : List Block} {s q rest : PyStr} {b : Block}

/-- The cut passes over a block without the summary's mark. -/
theorem cutFirst_render (hfind : ¬ revisionSummarySep <:+: b.find) (hrepl : ¬ revisionSummarySep <:+: b.repl) :
    cutFirst revisionSummarySep (b.render ++ s) =
      (cutFirst revisionSummarySep s).map fun r => (b.render ++ r.1, r.2) := by
  have hnl : '\n' ∉ revisionSummarySep := by decide
  have hmarks : ¬ revisionSummarySep <:+: findMark ∧ ¬ revisionSummarySep <:+: dividerMark ∧
      ¬ revisionSummarySep <:+: replaceMark := by decide
  have htail : cutFirst revisionSummarySep (b.tail ++ s) =
      (cutFirst revisionSummarySep s).map fun r => (b.tail ++ r.1, r.2) := by
    have hend := cutFirst_line (s := s) hnl hmarks.2.2
    cases hb : b.bare with
    | true =>
      simp only [Block.tail, hb, if_true, List.nil_append, List.append_assoc, List.cons_append, hend]
    | false =>
      simp only [Block.tail, hb, Bool.false_eq_true, if_false, List.append_assoc, List.cons_append,
        List.nil_append, cutFirst_line hnl hrepl, hend, Option.map_map]
      rfl
  rw [Block.render, List.append_assoc, List.cons_append, List.append_assoc, List.cons_append,
    List.append_assoc, List.cons_append, cutFirst_line hnl hmarks.1, cutFirst_line hnl hfind,
    cutFirst_line hnl hmarks.2.1, htail]
  simp only [Option.map_map]
  refine congrArg (fun f => Option.map f _) (funext fun r => ?_)
  simp

/-- The blocks are read back exactly where each is readable. -/
theorem findall_blocks {summary : PyStr} (h : cutFirst revisionSummarySep
    (blocks.flatMap Block.render ++ (revisionSummarySep ++ summary)) = some (q, rest)) :
    findall patchBlock q = blocks.map Block.edit ↔ ∀ b ∈ blocks, b.Readable := by
  induction blocks generalizing q rest with
  | nil =>
    rw [List.flatMap_nil, List.nil_append, cutFirst, lazily_of_some (literal_append _ _)] at h
    cases h
    simp [findall, findallFrom]
  | cons b blocks ih =>
    rw [List.flatMap_cons, List.append_assoc] at h
    rw [List.map_cons, List.forall_mem_cons]
    by_cases hsep : revisionSummarySep <:+: b.find ∨ revisionSummarySep <:+: b.repl
    · -- the cut is inside this block: what is read before it cannot have the mark
      constructor
      · intro hread
        have hq := not_infix_of_cutFirst (by decide) h
        have hmem : b.edit ∈ findall patchBlock q := by
          rw [hread]
          exact List.mem_cons_self
        obtain ⟨hf, hr⟩ := infix_of_mem hmem
        rcases hsep with hs | hs
        · exact absurd (hs.trans hf) hq
        · exact absurd (hs.trans hr) hq
      · rintro ⟨hb, -⟩
        obtain ⟨-, -, -, -, hf, hr⟩ := hb
        rcases hsep with hs | hs
        · exact absurd hs hf
        · exact absurd hs hr
    · rw [not_or] at hsep
      rw [cutFirst_render hsep.1 hsep.2, Option.map_eq_some_iff] at h
      obtain ⟨⟨q', rest'⟩, hcut, he⟩ := h
      cases he
      constructor
      · intro hread
        obtain ⟨hbare, hfind, hrepl, hend⟩ := readable_of_findall hread
        have hb : b.Readable := ⟨hbare, hfind, hrepl, hend, hsep⟩
        rw [findall_render hb] at hread
        exact ⟨hb, (ih hcut).mp (List.cons.inj hread).2⟩
      · rintro ⟨hb, hall⟩
        rw [findall_render hb, (ih hcut).mpr hall]

/-- The patch text of what the reviser prints: the blocks up to the first mark of the summary. -/
theorem patchTextOf_render (blocks : List Block) (summary : PyStr) :
    ∃ q rest, cutFirst revisionSummarySep
        (blocks.flatMap Block.render ++ (revisionSummarySep ++ '\n' :: summary)) = some (q, rest) ∧
      patchTextOf (render blocks summary) = '\n' :: q := by
  obtain ⟨q, rest, hcut, -⟩ := lazily_le (x := blocks.flatMap Block.render)
    (literal_append revisionSummarySep ('\n' :: summary))
  refine ⟨q, rest, hcut, ?_⟩
  have hfence : stripCodeFence (render blocks summary) = render blocks summary := by
    have hnone : fenceOpen (stripNewlines (render blocks summary)) = none := by
      refine (congrArg (Option.bind · _) (literal_eq_none fun hp => ?_)).trans rfl
      have hw : ∃ w, render blocks summary = '%' :: w := ⟨_, rfl⟩
      obtain ⟨w, hw⟩ := hw
      rw [hw, stripNewlines, List.dropWhile_cons_of_neg (by decide)] at hp
      obtain ⟨u, hu⟩ := hp.trans (List.rdropWhile_prefix _ _)
      have hfence : "```".toList = ['`', '`', '`'] := by decide
      rw [hfence] at hu
      exact absurd (List.cons.inj hu).1 (by decide)
    rw [stripCodeFence, hnone]
  have hsplit : cutFirst revisionSummarySep (render blocks summary) = some (patchSep ++ '\n' :: q, rest) := by
    rw [render, cutFirst_line (by decide) (by decide), cutFirst, hcut, Option.map_some]
  have hpatch : cutFirst patchSep (patchSep ++ '\n' :: q) = some ([], '\n' :: q) :=
    lazily_of_some (literal_append _ _)
  rw [patchTextOf, hfence, splitReviserPatch, hsplit]
  simp only [hpatch]

end Output

/-- The reviser's edits are read back and applied exactly where every block is readable and no text that an
edit looks for overlaps itself in the paper. -/
theorem revise_exact (baseTex : PyStr) (blocks : List Block) (summary : PyStr) :
    Exact baseTex blocks summary ↔
      (∀ b ∈ blocks, b.Readable) ∧ AllApart baseTex (blocks.map Block.edit) := by
  obtain ⟨q, rest, hcut, htext⟩ := patchTextOf_render blocks summary
  have hread : patchEdits (patchTextOf (render blocks summary)) = findall patchBlock q := by
    rw [htext, patchEdits, findall_newline]
  rw [← findall_blocks hcut, ← hread]
  constructor
  · rintro ⟨hedits, -, hreports, -⟩
    rw [applyReviserPatch, hedits] at hreports
    exact ⟨hedits, allApart_of_reports hreports⟩
  · rintro ⟨hedits, hap⟩
    obtain ⟨htex, hreports⟩ := applyEdits_exact (i := 1) hap
    refine ⟨hedits, ?_, ?_, ?_⟩
    · rw [applyReviserPatch, hedits]
      exact htex
    · rw [applyReviserPatch, hedits]
      exact hreports
    · rw [applyReviserPatch, hedits]
      exact applied_add_errors _ _ _

/-- The text occurs twice, and is counted once. -/
def overlapping : Block where
  find := "aa".toList
  repl := "b".toList
  find_unmarked := by decide
  repl_unmarked := by decide

theorem overlapping_applied : ¬ Exact "aaa".toList [overlapping] "done".toList := by
  unfold Exact
  decide +kernel

end Danus.WritePaper.ReviserPatch
