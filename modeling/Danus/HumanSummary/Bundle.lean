import Danus.Authoring.Common
import Danus.FactGraph.ExternalRefs
import Danus.Observability.GraphPages
import Mathlib.Algebra.Order.BigOperators.Group.List

/-! The bundle of facts that the report writer gets, without the identifiers of the pipeline. -/
namespace Danus.HumanSummary
open Python FactGraph
open Danus.Authoring (bodySections fromHeading isHeading)
open Danus.Observability (Kept)

/-- What keeps the bundle from being made. -/
inductive BundleError where
  | invalidId (factId : PyStr)
  | recursion

section Bundle
variable [Runtime] (files : List (PyStr × PyStr))

/-- `get_raw(fid) or ""` of an id that is one safe path segment -/
def rawOf (fid : PyStr) : PyStr := ((files.lookup fid).map universalNewlines).getD []

/-- `predecessors` -/
def predecessors (fid : PyStr) : List PyStr := (parseFrontmatter (rawOf files fid)).predecessors

/-- `_depth`, with its cache; an id that is no safe path segment raises. The number bounds the calls that the
interpreter's stack still holds. -/
def depthOf : Nat → (PyStr → Option Nat) → PyStr → Except BundleError (Nat × (PyStr → Option Nat))
  | 0, _, _ => .error .recursion
  | n + 1, cache, fid =>
    match cache fid with
    | some d => .ok (d, cache)
    | none =>
      if isSafeFactId fid then
        let preds := predecessors files fid
        let visiting := Function.update cache fid (some 0)
        (preds.foldlM (fun acc p => (depthOf n acc.2 p).map fun r => (max acc.1 r.1, r.2)) (0, visiting)).map
          fun acc =>
            let d := if preds = [] then 0 else 1 + acc.1
            (d, Function.update acc.2 fid (some d))
      else .error (.invalidId fid)

/-- The depths of all facts. -/
def depths (callDepth : Nat) (ids : List PyStr) : Except BundleError (PyStr → Option Nat) :=
  ids.foldlM (fun cache fid => (depthOf files callDepth cache fid).map Prod.snd) fun _ => none

/-- `_in_degree` -/
def inDegree (ids : List PyStr) (fid : PyStr) : Nat := (ids.flatMap (predecessors files)).count fid

/-- The order of the key `(-depth[f], -indeg[f], f)`. -/
def leads (depth indeg : PyStr → Nat) (a b : PyStr) : Bool :=
  decide (depth b < depth a) || (depth a == depth b &&
    (decide (indeg b < indeg a) || (indeg a == indeg b && Json.strLe a b)))

/-- The loop of `_ordered_load_bearing`: the first of those whose predecessors are all placed comes next. -/
def orderFrom (before : PyStr → PyStr → Bool) (predsIn : PyStr → List PyStr) :
    Nat → List PyStr → List PyStr → List PyStr
  | 0, _, _ => []
  | n + 1, placed, remaining =>
    let ready := remaining.filter fun fid => (predsIn fid).all (· ∈ placed)
    let ready := if ready = [] then sortStr remaining else ready
    match ready.insertionSort fun a b => before a b = true with
    | [] => []
    | chosen :: _ => chosen :: orderFrom before predsIn n (placed ++ [chosen]) (remaining.erase chosen)

/-- `_ordered_load_bearing` -/
def orderedLoadBearing (callDepth : Nat) : Except BundleError (List PyStr) :=
  let ids := sortStr (files.map Prod.fst)
  (depths files callDepth ids).map fun depth =>
    orderFrom (leads (fun fid => (depth fid).getD 0) (inDegree files ids))
      (fun fid => (predecessors files fid).filter (· ∈ ids)) ids.length [] ids

/-- The line before a result. -/
def resultHeader (n : Nat) : PyStr := "--- Result".toList ++ ' ' :: (natText n ++ ' ' :: ("---".toList ++ ['\n']))

/-- The results in this order, each with its page, from one number on. -/
def blocksFrom {α : Type} (page : α → PyStr) : Nat → List α → List PyStr
  | _, [] => []
  | n, a :: rest => (resultHeader n ++ page a) :: blocksFrom page (n + 1) rest

/-- The bundle of pages. -/
def bundleOf {α : Type} (page : α → PyStr) (order : List α) : PyStr :=
  if order.isEmpty then "_(no verified results are available for this project yet)_\n".toList
  else joinWith ['\n'] (blocksFrom page 1 order)

/-- `fact_bundle` -/
def factBundle (callDepth : Nat) : Except BundleError PyStr :=
  (orderedLoadBearing files callDepth).map (bundleOf fun fid => bodySections (rawOf files fid))

end Bundle

section Pages

/-- The lines of a fact's sections. -/
def sectionLines (fact : Fact) : List PyStr :=
  "## statement".toList :: (linesOf (strip fact.statement) ++ ([[], "## proof".toList] ++
    (linesOf (strip fact.proof) ++ intuitionLines fact)))

/-- The mathematics of a fact: its sections and nothing else. -/
def pageText (fact : Fact) : PyStr := rstrip (joinWith ['\n'] (sectionLines fact)) ++ ['\n']

/-- The bundle has no id of an active fact, and it is the sections of every fact once, each under its number. -/
structure Scrubbed (facts : List Fact) (bundle : PyStr) : Prop where
  noId : ∀ f ∈ facts, ¬ f.factId <:+: bundle
  pages : ∃ order : List Fact, order.Perm facts ∧ bundle = bundleOf pageText order

/-- An id stands somewhere in the sections of a fact. -/
def Mentions (id : PyStr) (f : Fact) : Prop :=
  id <:+: f.statement ∨ id <:+: f.proof ∨ id <:+: f.intuition

/-- What the facts have to be like, where `calls` are the references that were set for each. -/
structure Clean (facts : List Fact) (calls : Fact → List (List ExternalRef)) : Prop where
  references : ∀ f ∈ facts, ∀ refs ∈ calls f, ∀ l ∈ linesOf (refsLine refs), isHeading l = false
  citations : ∀ f ∈ facts, ∀ g ∈ facts, ¬ Mentions f.factId g
  numbers : ∀ f ∈ facts, ∀ n, 1 ≤ n → n ≤ facts.length → ¬ f.factId <:+: natText n

variable {fact : Fact} {calls : List (List ExternalRef)} {file id : PyStr}

theorem fromHeading_append {before after : List PyStr} (h : ∀ l ∈ before, isHeading l = false) :
    fromHeading (before ++ after) = fromHeading after := by
  induction before with
  | nil => rfl
  | cons l before ih =>
    rw [List.cons_append, fromHeading, h l List.mem_cons_self, if_neg (by decide)]
    exact ih fun l' hl' => h l' (List.mem_cons_of_mem l hl')

/-- Where a line in front is a heading, the cut is in front too. -/
theorem fromHeading_early {before after : List PyStr} (h : ∃ l ∈ before, isHeading l = true) :
    ∃ first rest, fromHeading (before ++ after) = some (first :: rest ++ after) := by
  induction before with
  | nil => exact absurd h (by simp)
  | cons l before ih =>
    rw [List.cons_append, fromHeading]
    split_ifs with hl
    · exact ⟨l, before, rfl⟩
    · refine ih ?_
      obtain ⟨l', hm, hh⟩ := h
      rcases List.mem_cons.mp hm with rfl | hm
      · exact absurd hh hl
      · exact ⟨l', hm, hh⟩

theorem isHeading_of_head {c : Char} {s : PyStr} (hc : isSpace c = false) (hne : c ≠ '#') :
    isHeading (c :: s) = false := by
  rw [isHeading, lstrip_cons hc, startsWith, ← Bool.not_eq_true, List.isPrefixOf_iff_prefix]
  rintro ⟨u, hu⟩
  exact hne (List.cons.inj hu).1.symm

theorem isHeading_refsName (t : PyStr) : isHeading ("external_refs: ".toList ++ t) = false := by
  obtain ⟨cs, hcs⟩ : ∃ cs, "external_refs: ".toList = 'e' :: cs := ⟨_, rfl⟩
  rw [hcs, List.cons_append]
  exact isHeading_of_head (by decide) (by decide)

/-- No line of the references that are in the file is a heading where none of those ever set was. -/
theorem refsLines_headings (fact : Fact) (calls : List (List ExternalRef)) :
    (∀ l ∈ refsLines fact calls, isHeading l = false) ↔
      ∀ refs ∈ calls, ∀ l ∈ linesOf (refsLine refs), isHeading l = false := by
  induction calls with
  | nil =>
    refine iff_of_true (fun l hl => ?_) fun refs hr => absurd hr List.not_mem_nil
    rw [refsLines, List.mem_singleton] at hl
    rw [hl]
    exact isHeading_refsName _
  | cons refs calls ih =>
    obtain ⟨t, rest, hrefs⟩ := refsLines_head fact calls
    rw [hrefs, List.forall_mem_cons, and_iff_right (isHeading_refsName t)] at ih
    rw [refsLines, hrefs, List.drop_one, List.tail_cons, List.forall_mem_append, ih, List.forall_mem_cons]

theorem sectionLines_eq (fact : Fact) : (bodyParts fact).flatMap linesOf = [] :: sectionLines fact := by
  rw [bodyLines, sectionLines]
  simp only [List.append_assoc, List.cons_append, List.nil_append]

theorem fromHeading_sections (fact : Fact) : fromHeading (sectionLines fact) = some (sectionLines fact) := by
  rw [sectionLines, fromHeading, if_pos (by decide)]

/-- The first character of the sections is no space. -/
theorem sections_ne_blank (fact : Fact) : rstrip (joinWith ['\n'] (sectionLines fact)) ≠ [] := by
  obtain ⟨cs, hcs⟩ : ∃ cs, joinWith ['\n'] (sectionLines fact) = '#' :: cs := by
    obtain ⟨title, ht⟩ : ∃ title, "## statement".toList = '#' :: title := ⟨_, rfl⟩
    rw [sectionLines, ht]
    cases linesOf (strip fact.statement) ++ ([[], "## proof".toList] ++
      (linesOf (strip fact.proof) ++ intuitionLines fact)) with
    | nil => exact ⟨title, joinWith_singleton _ _⟩
    | cons l ls => exact ⟨_, by rw [joinWith_cons_cons, List.cons_append]⟩
  intro h
  have hmem : '#' ∈ joinWith ['\n'] (sectionLines fact) := by
    rw [hcs]
    exact List.mem_cons_self
  rw [rstrip, List.reverse_eq_nil_iff, List.dropWhile_eq_nil_iff] at h
  exact absurd (h '#' (List.mem_reverse.mpr hmem)) (by decide)

/-- The body that is cut from the file: the sections, after whatever lines of the frontmatter come with them. -/
theorem bodySections_written (hg : fact.Guarded) (h : Written fact calls file) :
    ∃ front, bodySections (universalNewlines file) = rstrip (joinWith ['\n'] (front ++ sectionLines fact)) ++ ['\n'] ∧
      (front = [] ↔ ∀ l ∈ refsLines fact calls, isHeading l = false) := by
  have hlines : splitlines file = ("---".toList :: keyLinesBefore fact) ++ (refsLines fact calls ++
      (["---".toList, []] ++ sectionLines fact)) := by
    rw [splitlines_written hg h, fileLines, sectionLines_eq]
    rfl
  have hbefore : ∀ l ∈ "---".toList :: keyLinesBefore fact, isHeading l = false := by
    intro l hl
    rcases List.mem_cons.mp hl with rfl | hl
    · decide
    · obtain ⟨c, rest, rfl, hc, hash, -⟩ := keyLines_start l (List.mem_of_mem_take hl)
      refine isHeading_of_head hc fun he => hash ?_
      rw [he]
      rfl
  have hmarks : ∀ l ∈ ["---".toList, []], isHeading l = false := by decide
  have hcut : ∀ body, fromHeading (splitlines file) = some body →
      bodySections (universalNewlines file) = rstrip (joinWith ['\n'] body) ++ ['\n'] := fun body hb => by
    rw [bodySections, splitlines_universalNewlines, hb]
  by_cases hrefs : ∀ l ∈ refsLines fact calls, isHeading l = false
  · refine ⟨[], hcut _ ?_, iff_of_true rfl hrefs⟩
    rw [hlines, fromHeading_append hbefore, fromHeading_append hrefs, fromHeading_append hmarks,
      fromHeading_sections]
    rfl
  · obtain ⟨l, hl, hh⟩ : ∃ l ∈ refsLines fact calls, isHeading l = true := by
      by_contra hnone
      exact hrefs fun l hl => Bool.eq_false_iff.mpr fun hh => hnone ⟨l, hl, hh⟩
    obtain ⟨first, rest, hfrom⟩ := @fromHeading_early _ (["---".toList, []] ++ sectionLines fact) ⟨l, hl, hh⟩
    refine ⟨first :: rest ++ ["---".toList, []], hcut _ ?_, iff_of_false (List.cons_ne_nil _ _) hrefs⟩
    rw [hlines, fromHeading_append hbefore, hfrom, ← List.append_assoc]

/-- The page of a written fact is its mathematics, or longer than that. -/
theorem page_written (hg : fact.Guarded) (h : Written fact calls file) :
    ((∀ l ∈ refsLines fact calls, isHeading l = false) →
        bodySections (universalNewlines file) = pageText fact) ∧
      ((¬ ∀ l ∈ refsLines fact calls, isHeading l = false) →
        (pageText fact).length < (bodySections (universalNewlines file)).length) := by
  obtain ⟨front, hbody, hfront⟩ := bodySections_written hg h
  refine ⟨fun hrefs => ?_, fun hrefs => ?_⟩
  · rw [hbody, hfront.mpr hrefs]
    rfl
  · have hne : front ≠ [] := mt hfront.mp hrefs
    have hsec : sectionLines fact ≠ [] := List.cons_ne_nil _ _
    rw [hbody, pageText, joinWith_append ['\n'] hne hsec, rstrip_append_eq,
      rstrip_append_eq ['\n'], if_neg (sections_ne_blank fact), if_neg (by simp)]
    simp only [List.length_append, List.length_cons, List.length_nil]
    omega

section Lengths
variable {α : Type} {page : α → PyStr} {order : List α}

theorem length_joinWith (sep : PyStr) {parts : List PyStr} (hne : parts ≠ []) :
    (joinWith sep parts).length + sep.length = (parts.map fun p => p.length + sep.length).sum := by
  induction parts with
  | nil => exact absurd rfl hne
  | cons p parts ih =>
    cases parts with
    | nil => simp [joinWith_singleton]
    | cons q parts =>
      have h := ih (List.cons_ne_nil q parts)
      rw [joinWith_cons_cons, List.map_cons, List.sum_cons, ← h]
      simp only [List.length_append]
      omega

/-- The lengths of the headers, from one number on. -/
def headers : Nat → Nat → Nat
  | _, 0 => 0
  | n, k + 1 => (resultHeader n).length + 1 + headers (n + 1) k

theorem length_blocks (page : α → PyStr) (n : Nat) (order : List α) :
    ((blocksFrom page n order).map fun p => p.length + 1).sum =
      headers n order.length + (order.map fun a => (page a).length).sum := by
  induction order generalizing n with
  | nil => rfl
  | cons a rest ih =>
    rw [blocksFrom, List.map_cons, List.sum_cons, ih, List.length_cons, headers, List.map_cons, List.sum_cons,
      List.length_append]
    omega

/-- How long a bundle is. -/
theorem length_bundleOf (page : α → PyStr) (hne : order ≠ []) :
    (bundleOf page order).length + 1 = headers 1 order.length + (order.map fun a => (page a).length).sum := by
  obtain ⟨a, rest, rfl⟩ := List.exists_cons_of_ne_nil hne
  rw [← length_blocks]
  exact length_joinWith ['\n'] (List.cons_ne_nil _ _)

end Lengths

/-- Pages of the same facts, none shorter than the mathematics, make the same bundle only where all are as long
as it. -/
theorem pages_of_bundle {page : Fact → PyStr} {facts order order' : List Fact} (hperm : order.Perm facts)
    (hperm' : order'.Perm facts) (hle : ∀ f ∈ facts, (pageText f).length ≤ (page f).length)
    (he : bundleOf page order = bundleOf pageText order') :
    ∀ f ∈ facts, (page f).length = (pageText f).length := by
  intro f hf
  have hne : order ≠ [] := List.ne_nil_of_mem (hperm.mem_iff.mpr hf)
  have hne' : order' ≠ [] := List.ne_nil_of_mem (hperm'.mem_iff.mpr hf)
  have hlen := length_bundleOf page hne
  have hlen' := length_bundleOf pageText hne'
  rw [he, hlen', hperm.length_eq, hperm'.length_eq, (hperm.map _).sum_eq, (hperm'.map _).sum_eq] at hlen
  by_contra hlong
  have hlt := List.sum_lt_sum _ _ hle ⟨f, hf, Nat.lt_of_le_of_ne (hle f hf) (Ne.symm hlong)⟩
  omega

section Ids
variable {n : Nat} {s : PyStr}

/-- What the id of a fact looks like. -/
structure HexId (id : PyStr) : Prop where
  length : id.length = 16
  noSpace : ∀ c ∈ id, isSpace c = false

namespace HexId

theorem of_guarded (hg : fact.Guarded) : HexId fact.factId := by
  rw [hg.factId]
  obtain ⟨hlen, hchars⟩ := isHexOf_chars (factId_isHexOf fact.problemId fact.predecessors fact.glossaryIntroduces
    fact.statement fact.proof)
  exact ⟨hlen, fun c hc => (hchars c hc).2.1⟩

variable (h : HexId id)
include h

theorem ne_nil : id ≠ [] := fun he => by
  have hlen := h.length
  rw [he] at hlen
  cases hlen

theorem not_mem {c : Char} (hc : isSpace c = true) : c ∉ id := fun hm => by
  rw [h.noSpace c hm] at hc
  cases hc

theorem not_infix_short (hs : s.length < 16) : ¬ id <:+: s := fun hin => by
  have hle := hin.length_le
  rw [h.length] at hle
  omega

theorem infix_lines : (∃ l ∈ linesOf (strip s), id <:+: l) ↔ id <:+: s := by
  rw [← infix_strip h.noSpace h.ne_nil]
  unfold linesOf
  split_ifs with hs
  · rw [hs]
    exact ⟨fun ⟨l, hl, hin⟩ => List.mem_singleton.mp hl ▸ hin, fun hin => ⟨[], List.mem_singleton_self _, hin⟩⟩
  · refine infix_splitlines (fun c hc => ?_) h.ne_nil
    rw [← Bool.not_eq_true]
    exact fun hb => h.not_mem (isSpace_of_isLineBreak hb) hc

theorem infix_sections : (∃ l ∈ sectionLines fact, id <:+: l) ↔ Mentions id fact := by
  have hshort : ¬ id <:+: "## statement".toList ∧ ¬ id <:+: "## proof".toList ∧ ¬ id <:+: "## intuition".toList ∧
      ¬ id <:+: ([] : PyStr) :=
    ⟨h.not_infix_short (by decide), h.not_infix_short (by decide), h.not_infix_short (by decide),
      h.not_infix_short (by decide)⟩
  have hintuition : (∃ l ∈ intuitionLines fact, id <:+: l) ↔ id <:+: fact.intuition := by
    unfold intuitionLines
    split_ifs with hi
    · rw [List.cons_append, List.cons_append, List.nil_append, List.exists_mem_cons_iff, List.exists_mem_cons_iff,
        or_iff_right hshort.2.2.2, or_iff_right hshort.2.2.1, h.infix_lines]
    · refine iff_of_false (fun ⟨l, hl, _⟩ => absurd hl List.not_mem_nil) fun hin => ?_
      rw [← infix_strip h.noSpace h.ne_nil, not_not.mp hi] at hin
      exact hshort.2.2.2 hin
  rw [sectionLines, List.exists_mem_cons_iff, or_iff_right hshort.1]
  simp only [List.mem_append, or_and_right, exists_or, h.infix_lines, hintuition, Mentions]
  rw [List.exists_mem_cons_iff, List.exists_mem_cons_iff, or_iff_right hshort.2.2.2, or_iff_right hshort.2.1]
  simp

theorem infix_pageText : id <:+: pageText fact ↔ Mentions id fact := by
  have hfeed : '\n' ∉ id := h.not_mem (by decide)
  rw [pageText, infix_append_mark hfeed, or_iff_left fun hin => h.ne_nil (List.infix_nil.mp hin),
    infix_rstrip h.noSpace h.ne_nil, infix_joinWith (List.cons_ne_nil _ _) (by simpa using hfeed) h.ne_nil,
    h.infix_sections]

theorem infix_block {page : PyStr} : id <:+: resultHeader n ++ page ↔ id <:+: natText n ∨ id <:+: page := by
  have hspace : ' ' ∉ id := h.not_mem (by decide)
  have hopening : ¬ id <:+: "--- Result".toList := h.not_infix_short (by decide)
  have hclosing : ¬ id <:+: "---".toList := h.not_infix_short (by decide)
  unfold resultHeader
  generalize "--- Result".toList = opening, "---".toList = closing at hopening hclosing
  have hparts : opening ++ ' ' :: (natText n ++ ' ' :: (closing ++ ['\n'])) ++ page =
      opening ++ ' ' :: (natText n ++ ' ' :: (closing ++ '\n' :: page)) := by
    simp only [List.append_assoc, List.cons_append, List.nil_append]
  rw [hparts, infix_append_mark hspace, infix_append_mark hspace, infix_append_mark (h.not_mem (by decide)),
    or_iff_right hopening, or_iff_right hclosing]

theorem infix_blocks {α : Type} {page : α → PyStr} {order : List α} {n : Nat} :
    (∃ b ∈ blocksFrom page n order, id <:+: b) ↔
      (∃ k, n ≤ k ∧ k < n + order.length ∧ id <:+: natText k) ∨ ∃ a ∈ order, id <:+: page a := by
  induction order generalizing n with
  | nil =>
    refine iff_of_false (fun ⟨b, hb, _⟩ => absurd hb List.not_mem_nil) ?_
    rintro (⟨k, hk, hlt, -⟩ | ⟨a, ha, -⟩)
    · exact absurd hlt (Nat.not_lt.mpr hk)
    · exact absurd ha List.not_mem_nil
  | cons a rest ih =>
    rw [blocksFrom, List.exists_mem_cons_iff, h.infix_block, ih, List.exists_mem_cons_iff, List.length_cons]
    have hsplit : (∃ k, n ≤ k ∧ k < n + (rest.length + 1) ∧ id <:+: natText k) ↔
        id <:+: natText n ∨ ∃ k, n + 1 ≤ k ∧ k < n + 1 + rest.length ∧ id <:+: natText k := by
      constructor
      · rintro ⟨k, hk, hlt, hin⟩
        rcases Nat.eq_or_lt_of_le hk with rfl | hk
        · exact .inl hin
        · exact .inr ⟨k, hk, by omega, hin⟩
      · rintro (hin | ⟨k, hk, hlt, hin⟩)
        · exact ⟨n, Nat.le_refl n, by omega, hin⟩
        · exact ⟨k, by omega, by omega, hin⟩
    rw [hsplit, or_or_or_comm]

/-- Where an id stands in the mathematics of a project. -/
theorem infix_bundleOf {order : List Fact} (hne : order ≠ []) : id <:+: bundleOf pageText order ↔
    (∃ k, 1 ≤ k ∧ k ≤ order.length ∧ id <:+: natText k) ∨ ∃ f ∈ order, Mentions id f := by
  have hfeed : '\n' ∉ id := h.not_mem (by decide)
  obtain ⟨f, rest, rfl⟩ := List.exists_cons_of_ne_nil hne
  have hbundle : bundleOf pageText (f :: rest) = joinWith ['\n'] (blocksFrom pageText 1 (f :: rest)) := rfl
  rw [hbundle, infix_joinWith (List.cons_ne_nil _ _) (by simpa using hfeed) h.ne_nil, h.infix_blocks]
  simp only [h.infix_pageText, Nat.one_add, Nat.lt_succ_iff]

end HexId
end Ids

end Pages

section Orders

/-- The loop places every fact once. -/
theorem orderFrom_perm {before : PyStr → PyStr → Bool} {predsIn : PyStr → List PyStr} {n : Nat}
    {placed remaining : List PyStr} (hn : remaining.length = n) :
    (orderFrom before predsIn n placed remaining).Perm remaining := by
  induction n generalizing placed remaining with
  | zero =>
    rw [List.length_eq_zero_iff.mp hn]
    exact .nil
  | succ n ih =>
    have hne : remaining ≠ [] := List.ne_nil_of_length_eq_add_one hn
    let ready := remaining.filter fun fid => (predsIn fid).all (· ∈ placed)
    have hready : ∀ chosen rest, (if ready = [] then sortStr remaining else ready).insertionSort
        (fun a b => before a b = true) = chosen :: rest → chosen ∈ remaining := by
      intro chosen rest hs
      have hmem : chosen ∈ (if ready = [] then sortStr remaining else ready) := by
        rw [← (List.perm_insertionSort (fun a b => before a b = true) _).mem_iff, hs]
        exact List.mem_cons_self
      split_ifs at hmem
      · exact (sortStr_perm remaining).mem_iff.mp hmem
      · exact (List.mem_filter.mp hmem).1
    have hsome : (if ready = [] then sortStr remaining else ready) ≠ [] := by
      split_ifs with hr
      · exact fun he => hne (List.perm_nil.mp ((sortStr_perm remaining).symm.trans (he ▸ List.Perm.refl _)))
      · exact hr
    rw [orderFrom]
    split
    · rename_i hs
      have hp := List.perm_insertionSort (fun a b => before a b = true)
        (if ready = [] then sortStr remaining else ready)
      rw [hs] at hp
      exact absurd (List.nil_perm.mp hp) hsome
    · rename_i chosen rest hs
      have hmem := hready chosen rest hs
      have hlen : (remaining.erase chosen).length = n := by
        rw [List.length_erase_of_mem hmem, hn, Nat.add_sub_cancel]
      exact ((ih hlen).cons chosen).trans (List.perm_cons_erase hmem).symm

/-- An order of images is an order of what they are images of. -/
theorem exists_map_of_perm {α β : Type} {f : α → β} {l : List β} {as : List α} (h : l.Perm (as.map f)) :
    ∃ order : List α, order.Perm as ∧ l = order.map f := by
  induction l generalizing as with
  | nil =>
    rw [List.nil_perm, List.map_eq_nil_iff] at h
    exact ⟨[], by rw [h], rfl⟩
  | cons b l ih =>
    obtain ⟨a, ha, rfl⟩ := List.mem_map.mp (h.mem_iff.mp List.mem_cons_self)
    obtain ⟨s, t, rfl⟩ := List.append_of_mem ha
    have hmid : (s ++ a :: t).Perm (a :: (s ++ t)) := List.perm_middle
    obtain ⟨order, hp, rfl⟩ := ih ((h.trans (hmid.map f)).cons_inv)
    exact ⟨a :: order, (hp.cons a).trans hmid.symm, rfl⟩

variable {α β : Type}

theorem blocksFrom_map (page : β → PyStr) (f : α → β) (n : Nat) (order : List α) :
    blocksFrom page n (order.map f) = blocksFrom (fun a => page (f a)) n order := by
  induction order generalizing n with
  | nil => rfl
  | cons a rest ih => rw [List.map_cons, blocksFrom, blocksFrom, ih]

theorem bundleOf_map (page : β → PyStr) (f : α → β) (order : List α) :
    bundleOf page (order.map f) = bundleOf (fun a => page (f a)) order := by
  rw [bundleOf, bundleOf, blocksFrom_map, List.isEmpty_map]

theorem bundleOf_congr {page page' : α → PyStr} {order : List α} (h : ∀ a ∈ order, page a = page' a) :
    bundleOf page order = bundleOf page' order := by
  have hblocks : ∀ n, blocksFrom page n order = blocksFrom page' n order := by
    induction order with
    | nil => exact fun n => rfl
    | cons a rest ih =>
      intro n
      rw [blocksFrom, blocksFrom, h a List.mem_cons_self, ih (fun b hb => h b (List.mem_cons_of_mem a hb))]
  rw [bundleOf, bundleOf, hblocks]

end Orders

section Exact
variable [Runtime] {facts : List Fact} {revoked : List PyStr} {calls : Fact → List (List ExternalRef)}
  {file : Fact → PyStr} {callDepth : Nat} {bundle : PyStr}

/-- The files of these facts. -/
def filesOf (file : Fact → PyStr) (facts : List Fact) : List (PyStr × PyStr) :=
  facts.map fun f => (f.factId, file f)

/-- Every file is in the order, once. -/
theorem orderedLoadBearing_perm {files : List (PyStr × PyStr)} {ids : List PyStr}
    (h : orderedLoadBearing files callDepth = .ok ids) : ids.Perm (files.map Prod.fst) := by
  rw [orderedLoadBearing] at h
  cases hd : depths files callDepth (sortStr (files.map Prod.fst)) with
  | error e =>
    rw [hd] at h
    cases h
  | ok depth =>
    rw [hd] at h
    rw [← Except.ok.inj h]
    exact (orderFrom_perm rfl).trans (sortStr_perm _)

/-- A bundle is the bodies of all facts in some order. -/
theorem factBundle_pages (hids : (facts.map Fact.factId).Nodup)
    (hb : factBundle (filesOf file facts) callDepth = .ok bundle) : ∃ order : List Fact, order.Perm facts ∧
      bundle = bundleOf (fun f => bodySections (universalNewlines (file f))) order := by
  have hnames : (filesOf file facts).map Prod.fst = facts.map Fact.factId := by
    rw [filesOf, List.map_map]
    rfl
  have hraw : ∀ f ∈ facts, rawOf (filesOf file facts) f.factId = universalNewlines (file f) := by
    intro f hf
    have hlookup : (filesOf file facts).lookup f.factId = some (file f) :=
      lookup_eq_some_of_nodup (hnames ▸ hids) (List.mem_map_of_mem hf)
    rw [rawOf, hlookup]
    rfl
  rw [factBundle] at hb
  cases ho : orderedLoadBearing (filesOf file facts) callDepth with
  | error e =>
    rw [ho] at hb
    cases hb
  | ok ids =>
    rw [ho] at hb
    have hperm := orderedLoadBearing_perm ho
    rw [hnames] at hperm
    obtain ⟨order, hp, rfl⟩ := exists_map_of_perm hperm
    refine ⟨order, hp, ?_⟩
    rw [← Except.ok.inj hb, bundleOf_map]
    exact bundleOf_congr fun f hf => by rw [hraw f (hp.mem_iff.mp hf)]

/-- The bundle is scrubbed where the facts are clean, and only there. -/
theorem factBundle_exact (hkept : Kept facts revoked) (hw : ∀ f ∈ facts, Written f (calls f) (file f))
    (hb : factBundle (filesOf file facts) callDepth = .ok bundle) : Scrubbed facts bundle ↔ Clean facts calls := by
  have hordered := hkept.ordered
  obtain ⟨order, hperm, hbundle⟩ := factBundle_pages hordered.ids hb
  have hpage := fun f hf => page_written (hordered.guarded f hf) (hw f hf)
  -- the ids that the mathematics alone brings along
  have hids : ∀ f ∈ facts, ∀ order' : List Fact, order'.Perm facts → (f.factId <:+: bundleOf pageText order' ↔
      (∃ k, 1 ≤ k ∧ k ≤ facts.length ∧ f.factId <:+: natText k) ∨ ∃ g ∈ facts, Mentions f.factId g) := by
    intro f hf order' hp
    rw [(HexId.of_guarded (hordered.guarded f hf)).infix_bundleOf (List.ne_nil_of_mem (hp.mem_iff.mpr hf)),
      hp.length_eq]
    simp only [hp.mem_iff]
  constructor
  · intro h
    obtain ⟨order', hperm', he⟩ := h.pages
    have hlengths := pages_of_bundle hperm hperm' (fun f hf => ?_) (hbundle.symm.trans he)
    · have hrefs : ∀ f ∈ facts, ∀ l ∈ refsLines f (calls f), isHeading l = false := by
        intro f hf
        by_contra hnone
        exact absurd (hlengths f hf) (Nat.ne_of_gt ((hpage f hf).2 hnone))
      have hno : ∀ f ∈ facts, ¬ ((∃ k, 1 ≤ k ∧ k ≤ facts.length ∧ f.factId <:+: natText k) ∨
          ∃ g ∈ facts, Mentions f.factId g) := by
        intro f hf
        rw [← hids f hf order' hperm', ← he]
        exact h.noId f hf
      refine ⟨fun f hf => (refsLines_headings f (calls f)).mp (hrefs f hf), fun f hf g hg hm => ?_,
        fun f hf n hn hle hin => ?_⟩
      · exact hno f hf (.inr ⟨g, hg, hm⟩)
      · exact hno f hf (.inl ⟨n, hn, hle, hin⟩)
    · by_cases hrefs : ∀ l ∈ refsLines f (calls f), isHeading l = false
      · rw [(hpage f hf).1 hrefs]
      · exact ((hpage f hf).2 hrefs).le
  · intro h
    have hexact : bundle = bundleOf pageText order := by
      rw [hbundle]
      refine bundleOf_congr fun f hf => (hpage f (hperm.mem_iff.mp hf)).1 ?_
      exact (refsLines_headings f (calls f)).mpr (h.references f (hperm.mem_iff.mp hf))
    refine ⟨fun f hf => ?_, order, hperm, hexact⟩
    rw [hexact, hids f hf order hperm]
    rintro (⟨k, hk, hle, hin⟩ | ⟨g, hg, hm⟩)
    · exact h.numbers f hf k hk hle hin
    · exact h.citations f hf g hg hm

end Exact

section Examples

/-- A fact with this intuition. -/
def factWith (intuition : PyStr) : Fact where
  factId := computeFactId "p".toList [] [] "x = x".toList "rfl".toList
  problemId := "p".toList
  author := "worker".toList
  predecessors := []
  statement := "x = x".toList
  proof := "rfl".toList
  glossaryIntroduces := []
  intuition := intuition
  factIdentity := List.replicate 64 'a'
  externalRefs := []
  glossary_keys := List.nodup_nil

theorem guarded_factWith {intuition : PyStr}
    (h : (splitlines intuition).any (fun line => heading line == "## intuition".toList) = false) :
    (factWith intuition).Guarded := by
  have hidentity : isHexOf 64 (List.replicate 64 'a') = true := by decide
  have hfields : checkFields "p".toList "worker".toList "x = x".toList intuition [] = .ok () := by
    rw [checkFields, if_neg (by decide), if_neg (by decide), if_neg (by decide), h, if_neg (by decide),
      if_neg (by decide)]
  exact ⟨hfields, fun p hp => absurd hp List.not_mem_nil, rfl, hidentity⟩

theorem kept_factWith {intuition : PyStr} (hg : (factWith intuition).Guarded) : Kept [factWith intuition] [] :=
  Kept.empty.add hg (by rintro ⟨⟩) (by rintro ⟨⟩) (by rintro p ⟨⟩)

/-- The bundle of one fact without predecessors. -/
theorem factBundle_factWith {intuition : PyStr} (hg : (factWith intuition).Guarded) : ∃ bundle,
    @factBundle asciiRuntime (filesOf serializeFact [factWith intuition]) 1000 = .ok bundle := by
  have hpreds : @predecessors asciiRuntime (filesOf serializeFact [factWith intuition])
      (factWith intuition).factId = [] := by
    have hraw : rawOf (filesOf serializeFact [factWith intuition]) (factWith intuition).factId =
        universalNewlines (serializeFact (factWith intuition)) := by
      rw [rawOf, filesOf, List.map_singleton, lookup_cons_self]
      rfl
    have hparse : @parseFrontmatter asciiRuntime (universalNewlines (serializeFact (factWith intuition))) =
        @parseFrontmatter asciiRuntime (serializeFact (factWith intuition)) := by
      unfold parseFrontmatter
      rw [splitlines_universalNewlines]
    unfold predecessors
    rw [hraw, hparse, @parseFrontmatter_serializeFact (factWith intuition) asciiRuntime hg]
    rfl
  have hsafe : isSafeFactId (factWith intuition).factId = true :=
    isSafeFactId_of_isHexOf (factId_isHexOf _ _ _ _ _)
  have hdepth : ∃ r, @depthOf asciiRuntime (filesOf serializeFact [factWith intuition]) 1000 (fun _ => none)
      (factWith intuition).factId = .ok r := by
    unfold depthOf
    dsimp only
    rw [if_pos hsafe, hpreds]
    exact ⟨_, rfl⟩
  obtain ⟨r, hr⟩ := hdepth
  have hids : sortStr ((filesOf serializeFact [factWith intuition]).map Prod.fst) =
      [(factWith intuition).factId] := rfl
  have hdepths : @depths asciiRuntime (filesOf serializeFact [factWith intuition]) 1000
      [(factWith intuition).factId] = .ok r.2 := by
    unfold depths
    rw [List.foldlM_cons, hr]
    rfl
  unfold factBundle orderedLoadBearing
  rw [hids]
  dsimp only
  rw [hdepths]
  exact ⟨_, rfl⟩

/-- A fact that says nothing of ids is shown as its mathematics. -/
theorem factBundle_exact_plain : Kept [factWith []] [] ∧ ∃ bundle,
    @factBundle asciiRuntime (filesOf serializeFact [factWith []]) 1000 = .ok bundle ∧
      Scrubbed [factWith []] bundle := by
  have hg : (factWith []).Guarded := guarded_factWith (by decide)
  obtain ⟨bundle, hb⟩ := factBundle_factWith hg
  have hid := HexId.of_guarded hg
  have hone : ∀ {P : Fact → Prop}, P (factWith []) → ∀ f ∈ [factWith []], P f := by
    intro P h f hf
    rwa [List.mem_singleton.mp hf]
  refine ⟨kept_factWith hg, bundle, hb, (@factBundle_exact asciiRuntime [factWith []] [] (fun _ => []) serializeFact
    1000 bundle (kept_factWith hg) (hone .add) hb).mpr ⟨hone ?_, hone (hone ?_), hone fun n hn hle => ?_⟩⟩
  · exact fun refs hr => absurd hr List.not_mem_nil
  · rintro (h | h | h)
    · exact hid.not_infix_short (by decide) h
    · exact hid.not_infix_short (by decide) h
    · exact hid.not_infix_short (by decide) h
  · have hn : n = 1 := Nat.le_antisymm hle hn
    rw [hn]
    exact hid.not_infix_short (by decide)

/-- An intuition that cites its own fact. -/
def citingIntuition : PyStr := "see ".toList ++ (factWith []).factId

/-- An intuition that cites its fact shows the id. -/
theorem cited_id_shown : Kept [factWith citingIntuition] [] ∧ ∃ bundle,
    @factBundle asciiRuntime (filesOf serializeFact [factWith citingIntuition]) 1000 = .ok bundle ∧
      ¬ Scrubbed [factWith citingIntuition] bundle := by
  have hline : IsLine citingIntuition := by
    have hsee : ∀ c ∈ "see ".toList, Json.isPlain c = true := by decide
    have hplain : ∀ c ∈ citingIntuition, Json.isPlain c = true := by
      intro c hc
      rcases List.mem_append.mp hc with hc | hc
      · exact hsee c hc
      · exact ((isHexOf_chars (factId_isHexOf _ _ _ _ _)).2 c hc).1
    exact isLine_of_plain hplain
  have hg : (factWith citingIntuition).Guarded := by
    refine guarded_factWith ?_
    obtain ⟨cs, hcs⟩ : ∃ cs, "see ".toList = 's' :: cs := ⟨_, rfl⟩
    have hs : citingIntuition = 's' :: (cs ++ (factWith []).factId) := by rw [citingIntuition, hcs, List.cons_append]
    have hlines : splitlines citingIntuition = [citingIntuition] := by
      rw [splitlines, splitlinesFrom_line hline, if_neg fun he => List.cons_ne_nil _ _ (hs.symm.trans he.1)]
      rfl
    have hheading : heading citingIntuition ≠ "## intuition".toList := by
      rw [hs]
      exact heading_ne (by decide) (by decide)
    rw [hlines, List.any_cons, List.any_nil, Bool.or_false, beq_eq_false_iff_ne]
    exact hheading
  obtain ⟨bundle, hb⟩ := factBundle_factWith hg
  refine ⟨kept_factWith hg, bundle, hb, fun h => ?_⟩
  obtain ⟨order, hperm, he⟩ := h.pages
  have hmem := List.mem_singleton_self (factWith citingIntuition)
  have hcites : Mentions (factWith citingIntuition).factId (factWith citingIntuition) :=
    .inr (.inr (List.suffix_append "see ".toList _).isInfix)
  refine h.noId _ hmem ?_
  rw [he, (HexId.of_guarded hg).infix_bundleOf (List.ne_nil_of_mem (hperm.mem_iff.mpr hmem))]
  exact .inr ⟨_, hperm.mem_iff.mpr hmem, hcites⟩

end Examples
end Danus.HumanSummary
