import Danus.Authoring.Common
import Danus.Lib.Matching
import Danus.Lib.Numerals
import Danus.WritePaper.FactOrder

/-! The planner's sections, and the repair that makes them cover each fact once. -/
namespace Danus.WritePaper.Chunked
open Python Matching
open Danus.FactGraph (Runtime startsWith)
open FactOrder (reprList)

/-- A section of the plan. -/
structure Section where
  title : PyStr
  label : PyStr
  factIds : List PyStr
  deriving DecidableEq

/-- The blocks that the planner prints. -/
structure Blocks where
  preamble : PyStr
  frontmatter : PyStr
  sections : PyStr
  bibliography : PyStr
  deriving DecidableEq

/-- What aborts the plan. -/
inductive PlanError where
  | missingSeparator (sep : PyStr)
  | outOfOrder
  | notJson
  | notArray
  | notObject (i : Nat)
  | noTitle (i : Nat)
  | noLabel (i : Nat)
  | duplicateLabel (label : PyStr)
  | badFactIds (i : Nat)
  | assignedTwice (dups : List PyStr)
  | outsideClosure (extra : List PyStr)
  | unassigned (missing : List PyStr)
  deriving DecidableEq

/-- The message of the `ChunkError`; `decoder` is what `json.loads` said. -/
def PlanError.message [Runtime] (decoder : PyStr) : PlanError → PyStr
  | missingSeparator sep => "planner output missing separator ".toList ++ sep
  | outOfOrder => ("planner separators are out of order " ++
      "(expected preamble, frontmatter, sections, bibliography)").toList
  | notJson => "SECTIONS block is not valid JSON: ".toList ++ decoder
  | notArray => "SECTIONS block must be a non-empty JSON array".toList
  | notObject i => "SECTIONS[".toList ++ natText i ++ "] is not an object".toList
  | noTitle i => "SECTIONS[".toList ++ natText i ++ "] has no valid 'title'".toList
  | noLabel i => "SECTIONS[".toList ++ natText i ++ "] has no valid 'label'".toList
  | duplicateLabel label => "duplicate section label ".toList ++ Runtime.reprText label
  | badFactIds i => "SECTIONS[".toList ++ natText i ++ "] 'fact_ids' must be a list of strings".toList
  | assignedTwice dups => "facts assigned to more than one section: ".toList ++ reprList dups
  | outsideClosure extra => "section plan assigns ids not in the closure: ".toList ++ reprList extra
  | unassigned missing => "closure facts unassigned to any section: ".toList ++ reprList missing

def sepPreamble : PyStr := "%%%PREAMBLE%%%".toList

def sepFrontmatter : PyStr := "%%%FRONTMATTER%%%".toList

def sepSections : PyStr := "%%%SECTIONS%%%".toList

def sepBibliography : PyStr := "%%%BIBLIOGRAPHY%%%".toList

/-- `stdout.find(sep)`, where a missing separator aborts. -/
def findSep (sep stdout : PyStr) : Except PlanError Nat :=
  match cutFirst sep stdout with
  | some (before, _) => .ok before.length
  | none => .error (.missingSeparator sep)

/-- `stdout[start:end]` without the rest of the separator's own line. -/
def blockBetween (stdout : PyStr) (start stop : Nat) : PyStr :=
  (((stdout.take stop).drop start).dropWhile (· ≠ '\n')).drop 1

/-- `_split_planner_output` -/
def splitPlannerOutput (stdout : PyStr) : Except PlanError Blocks :=
  (findSep sepPreamble stdout).bind fun i =>
  (findSep sepFrontmatter stdout).bind fun j =>
  (findSep sepSections stdout).bind fun k =>
  (findSep sepBibliography stdout).bind fun l =>
    if i ≤ j ∧ j ≤ k ∧ k ≤ l then
      .ok {
        preamble := blockBetween stdout (i + sepPreamble.length) j
        frontmatter := blockBetween stdout (j + sepFrontmatter.length) k
        sections := blockBetween stdout (k + sepSections.length) l
        bibliography := blockBetween stdout (l + sepBibliography.length) stdout.length }
    else .error .outOfOrder

/-- The strings of a JSON array of strings. -/
def stringsOf : List Json → Option (List PyStr)
  | [] => some []
  | .str s :: items => (stringsOf items).map (s :: ·)
  | _ :: _ => none

/-- A string with something in it, under a key of an object. -/
def textAt (key : PyStr) (items : List (PyStr × Json)) : Option PyStr :=
  match items.lookup key with
  | some (.str s) => if strip s = [] then none else some s
  | _ => none

/-- `sec.get("fact_ids", [])` -/
def factIdsAt (items : List (PyStr × Json)) : Option (List PyStr) :=
  match items.lookup "fact_ids".toList with
  | none => some []
  | some (.arr ids) => stringsOf ids
  | some _ => none

/-- The loop of `_parse_sections`, from one index on. -/
def sectionsFrom : Nat → List PyStr → List Json → Except PlanError (List Section)
  | _, _, [] => .ok []
  | i, seenLabels, .obj items :: data =>
    match textAt "title".toList items with
    | none => .error (.noTitle i)
    | some title =>
      match textAt "label".toList items with
      | none => .error (.noLabel i)
      | some label =>
        if label ∈ seenLabels then .error (.duplicateLabel label)
        else
          match factIdsAt items with
          | none => .error (.badFactIds i)
          | some factIds => (sectionsFrom (i + 1) (label :: seenLabels) data).map (⟨title, label, factIds⟩ :: ·)
  | i, _, _ :: _ => .error (.notObject i)

/-- The block without the fence that may stand around it. -/
def unfenced (sectionsBlock : PyStr) : PyStr :=
  let text := strip sectionsBlock
  if startsWith "```".toList text then
    let lines := splitlines text
    let lines := if lines.head?.any (fun l => startsWith "```".toList (lstrip l)) then lines.drop 1 else lines
    let lines :=
      if lines.getLast?.any (fun l => startsWith "```".toList (strip l)) then lines.dropLast else lines
    strip (joinWith ['\n'] lines)
  else text

/-- `_parse_sections` -/
def parseSections (sectionsBlock : PyStr) : Except PlanError (List Section) :=
  match Json.parse (unfenced sectionsBlock) with
  | none => .error .notJson
  | some (.arr (sec :: data)) => sectionsFrom 0 [] (sec :: data)
  | some _ => .error .notArray

/-- What the repair has met so far. -/
structure Tally where
  seen : List PyStr := []
  dup : Nat := 0
  extra : Nat := 0

/-- The ids that a section keeps. -/
def keepIds (closureIds : List PyStr) : Tally → List PyStr → List PyStr × Tally
  | t, [] => ([], t)
  | t, f :: ids =>
    if f ∉ closureIds then keepIds closureIds { t with extra := t.extra + 1 } ids
    else if f ∈ t.seen then keepIds closureIds { t with dup := t.dup + 1 } ids
    else
      let r := keepIds closureIds { t with seen := t.seen ++ [f] } ids
      (f :: r.1, r.2)

/-- The loop of `normalize_coverage` over the sections. -/
def repairSections (closureIds : List PyStr) : Tally → List Section → List Section × Tally
  | t, [] => ([], t)
  | t, sec :: sections =>
    let kept := keepIds closureIds t sec.factIds
    let r := repairSections closureIds kept.2 sections
    ({ sec with factIds := kept.1 } :: r.1, r.2)

/-- The `i`-th label for the section that sweeps up what is left. -/
def sweepLabel (i : Nat) : PyStr :=
  if i = 1 then "sec:additional".toList else "sec:additional-".toList ++ natText i

/-- The search for a label that no section has; among more labels than sections one is free. -/
def freshLabelFrom (used : List PyStr) : Nat → Nat → PyStr
  | 0, i => sweepLabel i
  | fuel + 1, i => if sweepLabel i ∈ used then freshLabelFrom used fuel (i + 1) else sweepLabel i

def freshLabel (used : List PyStr) : PyStr := freshLabelFrom used used.length 1

/-- What the repair reports. -/
inductive RepairNote where
  | deduped (n : Nat)
  | dropped (n : Nat)
  | swept (n : Nat) (label : PyStr)
  deriving DecidableEq

def RepairNote.text : RepairNote → PyStr
  | deduped n => "deduped ".toList ++ natText n ++ " fact(s) assigned to >1 section (kept first)".toList
  | dropped n => "dropped ".toList ++ natText n ++ " assigned id(s) not in the closure".toList
  | swept n label => "swept ".toList ++ natText n ++ " unassigned closure fact(s) into '".toList ++ label ++
      "'".toList

/-- `normalize_coverage` -/
def normalizeCoverage (sections : List Section) (closureIds : List PyStr) :
    List Section × List RepairNote :=
  let r := repairSections closureIds {} sections
  let repaired := r.1
  let missing := closureIds.filter (· ∉ r.2.seen)
  let log := (if r.2.dup ≠ 0 then [.deduped r.2.dup] else []) ++
    if r.2.extra ≠ 0 then [RepairNote.dropped r.2.extra] else []
  if missing = [] then (repaired, log)
  else
    let label := freshLabel (repaired.map Section.label)
    (repaired ++ [⟨"Additional results".toList, label, missing⟩], log ++ [.swept missing.length label])

/-- `check_coverage` -/
def checkCoverage (sections : List Section) (closureIds : List PyStr) : Except PlanError Unit :=
  let assigned := sections.flatMap Section.factIds
  let dups := assigned.filter fun f => 1 < assigned.count f
  let extra := assigned.filter (· ∉ closureIds)
  let missing := closureIds.filter (· ∉ assigned)
  if dups ≠ [] then .error (.assignedTwice (sortStr dups.dedup))
  else if extra ≠ [] then .error (.outsideClosure (sortStr extra.dedup))
  else if missing ≠ [] then .error (.unassigned missing)
  else .ok ()

section Plans
variable {sections planned : List Section} {closureIds ids used : List PyStr} {t : Tally} {f : PyStr}

/-- The labels that parse are new ones, all different. -/
theorem sectionsFrom_labels {data : List Json} {i : Nat} {seen : List PyStr}
    (h : sectionsFrom i seen data = .ok sections) :
    (sections.map Section.label).Nodup ∧ ∀ l ∈ sections.map Section.label, l ∉ seen := by
  induction data generalizing i seen sections with
  | nil =>
    cases h
    exact ⟨List.nodup_nil, fun l hl => absurd hl List.not_mem_nil⟩
  | cons value data ih =>
    cases value with
    | obj items =>
      rw [sectionsFrom] at h
      split at h
      · cases h
      · rename_i title htitle
        split at h
        · cases h
        · rename_i label hlabel
          split_ifs at h with hseen
          split at h
          · cases h
          · rename_i factIds hids
            cases hrest : sectionsFrom (i + 1) (label :: seen) data with
            | error e =>
              rw [hrest] at h
              cases h
            | ok rest =>
              rw [hrest] at h
              cases h
              obtain ⟨hn, hnew⟩ := ih hrest
              rw [List.map_cons, List.nodup_cons]
              refine ⟨⟨fun hmem => hnew label hmem List.mem_cons_self, hn⟩, fun l hl => ?_⟩
              rcases List.mem_cons.mp hl with rfl | hl
              · exact hseen
              · exact fun hs => hnew l hl (List.mem_cons_of_mem _ hs)
    | _ => cases h

theorem parseSections_labels {block : PyStr} (h : parseSections block = .ok planned) :
    (planned.map Section.label).Nodup := by
  rw [parseSections] at h
  split at h
  · cases h
  · exact (sectionsFrom_labels h).1
  · cases h

/-- What a pass over some ids, or over some sections, leaves: it kept `kept` of `ids`. -/
structure Keeps (closureIds : List PyStr) (t : Tally) (ids kept : List PyStr) (t' : Tally) : Prop where
  seen : t'.seen = t.seen ++ kept
  kept_mem : ∀ f ∈ kept, f ∈ closureIds
  nodup : t.seen.Nodup → t'.seen.Nodup
  covers : ∀ f ∈ ids, f ∈ closureIds → f ∈ t'.seen

theorem Keeps.nil : Keeps closureIds t [] [] t where
  seen := (List.append_nil _).symm
  kept_mem _ hf := absurd hf List.not_mem_nil
  nodup h := h
  covers _ hf := absurd hf List.not_mem_nil

theorem Keeps.append {ids' kept kept' : List PyStr} {t₁ t₂ : Tally} (h : Keeps closureIds t ids kept t₁)
    (h' : Keeps closureIds t₁ ids' kept' t₂) : Keeps closureIds t (ids ++ ids') (kept ++ kept') t₂ where
  seen := by rw [h'.seen, h.seen, List.append_assoc]
  kept_mem f hf := (List.mem_append.mp hf).elim (h.kept_mem f) (h'.kept_mem f)
  nodup hn := h'.nodup (h.nodup hn)
  covers f hf hc := by
    rcases List.mem_append.mp hf with hf | hf
    · rw [h'.seen]
      exact List.mem_append_left _ (h.covers f hf hc)
    · exact h'.covers f hf hc

/-- One id is counted as a stray, counted as a duplicate, or kept. -/
theorem keepIds_keeps (closureIds ids : List PyStr) (t : Tally) :
    Keeps closureIds t ids (keepIds closureIds t ids).1 (keepIds closureIds t ids).2 := by
  induction ids generalizing t with
  | nil => exact .nil
  | cons f ids ih =>
    rw [keepIds]
    split_ifs with hin hdup
    · have h := ih { t with dup := t.dup + 1 }
      refine ⟨h.seen, h.kept_mem, h.nodup, fun a ha hc => ?_⟩
      rcases List.mem_cons.mp ha with rfl | ha
      · rw [h.seen]
        exact List.mem_append_left _ hdup
      · exact h.covers a ha hc
    · have h := ih { t with seen := t.seen ++ [f] }
      have hone : Keeps closureIds t [f] [f] { t with seen := t.seen ++ [f] } := by
        refine ⟨rfl, fun a ha => ?_, fun hn => ?_, fun a ha _ => List.mem_append_right _ ha⟩
        · rw [List.mem_singleton.mp ha]
          exact hin
        · rw [List.nodup_append]
          refine ⟨hn, List.nodup_singleton f, fun a ha b hb he => hdup ?_⟩
          rw [← List.mem_singleton.mp hb, ← he]
          exact ha
      exact hone.append h
    · have h := ih { t with extra := t.extra + 1 }
      refine ⟨h.seen, h.kept_mem, h.nodup, fun a ha hc => ?_⟩
      rcases List.mem_cons.mp ha with rfl | ha
      · exact absurd hc hin
      · exact h.covers a ha hc

theorem keepIds_sublist (closureIds ids : List PyStr) (t : Tally) :
    (keepIds closureIds t ids).1.Sublist ids := by
  induction ids generalizing t with
  | nil => exact List.Sublist.refl _
  | cons f ids ih =>
    rw [keepIds]
    split_ifs
    · exact (ih _).cons f
    · exact (ih _).cons_cons f
    · exact (ih _).cons f

theorem repairSections_keeps (closureIds : List PyStr) (sections : List Section) (t : Tally) :
    Keeps closureIds t (sections.flatMap Section.factIds)
      ((repairSections closureIds t sections).1.flatMap Section.factIds) (repairSections closureIds t sections).2 := by
  induction sections generalizing t with
  | nil => exact .nil
  | cons sec sections ih =>
    rw [repairSections, List.flatMap_cons, List.flatMap_cons]
    exact (keepIds_keeps closureIds sec.factIds t).append (ih _)

/-- A repaired section: the planner's, with some of its facts. -/
def Trimmed (sec planned : Section) : Prop :=
  sec.title = planned.title ∧ sec.label = planned.label ∧ sec.factIds.Sublist planned.factIds

theorem repairSections_trimmed (closureIds : List PyStr) (sections : List Section) (t : Tally) :
    List.Forall₂ Trimmed (repairSections closureIds t sections).1 sections := by
  induction sections generalizing t with
  | nil => exact .nil
  | cons sec sections ih => exact .cons ⟨rfl, rfl, keepIds_sublist ..⟩ (ih _)

theorem labels_of_trimmed {out : List Section} (h : List.Forall₂ Trimmed out sections) :
    out.map Section.label = sections.map Section.label := by
  induction h with
  | nil => rfl
  | cons hsec _ ih => rw [List.map_cons, List.map_cons, ih, hsec.2.1]

/-- New facts of the closure, each named once, are all kept. -/
theorem keepIds_self (hc : ∀ f ∈ ids, f ∈ closureIds) (hn : (t.seen ++ ids).Nodup) :
    keepIds closureIds t ids = (ids, { t with seen := t.seen ++ ids }) := by
  induction ids generalizing t with
  | nil => rw [keepIds, List.append_nil]
  | cons f ids ih =>
    have hnew : f ∉ t.seen := fun hs => (List.nodup_append.mp hn).2.2 f hs f List.mem_cons_self rfl
    have happ : t.seen ++ f :: ids = t.seen ++ [f] ++ ids := by rw [List.append_assoc, List.singleton_append]
    have hrest := ih (t := { t with seen := t.seen ++ [f] }) (fun a ha => hc a (List.mem_cons_of_mem _ ha))
      (by rw [← happ]; exact hn)
    rw [keepIds, if_neg (not_not.mpr (hc f List.mem_cons_self)), if_neg hnew, hrest, happ]

theorem repairSections_self (hc : ∀ f ∈ sections.flatMap Section.factIds, f ∈ closureIds)
    (hn : (t.seen ++ sections.flatMap Section.factIds).Nodup) :
    repairSections closureIds t sections =
      (sections, { t with seen := t.seen ++ sections.flatMap Section.factIds }) := by
  induction sections generalizing t with
  | nil => rw [repairSections, List.flatMap_nil, List.append_nil]
  | cons sec sections ih =>
    rw [List.flatMap_cons] at hc hn
    rw [← List.append_assoc] at hn
    have hkeep : keepIds closureIds t sec.factIds = (sec.factIds, { t with seen := t.seen ++ sec.factIds }) :=
      keepIds_self (fun f hf => hc f (List.mem_append_left _ hf)) (List.nodup_append.mp hn).1
    rw [repairSections, hkeep, ih (fun f hf => hc f (List.mem_append_right _ hf)) hn, List.flatMap_cons,
      List.append_assoc]

theorem sweepLabel_inj {i j : Nat} (h : sweepLabel i = sweepLabel j) : i = j := by
  have hlong : ∀ n, "sec:additional".toList ≠ "sec:additional-".toList ++ natText n := by
    intro n he
    have hlen := congrArg List.length he
    rw [List.length_append] at hlen
    have hl : "sec:additional".toList.length < "sec:additional-".toList.length := by decide
    omega
  rw [sweepLabel, sweepLabel] at h
  split_ifs at h with hi hj hj
  · rw [hi, hj]
  · exact absurd h (hlong j)
  · exact absurd h.symm (hlong i)
  · exact natText_inj (List.append_cancel_left h)

/-- The search ends at a free label, or finds every label up to its end in use. -/
theorem freshLabelFrom_spec (fuel i : Nat) : freshLabelFrom used fuel i ∉ used ∨
    ∀ k ≤ fuel, sweepLabel (i + k) ∈ used := by
  induction fuel generalizing i with
  | zero =>
    rw [freshLabelFrom]
    by_cases h : sweepLabel i ∈ used
    · refine .inr fun k hk => ?_
      rw [Nat.le_zero.mp hk]
      exact h
    · exact .inl h
  | succ fuel ih =>
    rw [freshLabelFrom]
    split_ifs with h
    · refine (ih (i + 1)).imp_right fun hall k hk => ?_
      cases k with
      | zero => exact h
      | succ k =>
        rw [Nat.add_comm k, ← Nat.add_assoc]
        exact hall k (Nat.le_of_succ_le_succ hk)
    · exact .inl h

theorem freshLabel_not_mem (used : List PyStr) : freshLabel used ∉ used := by
  refine (freshLabelFrom_spec used.length 1).resolve_right fun hall => ?_
  have hn : ((List.range (used.length + 1)).map fun k => sweepLabel (1 + k)).Nodup := by
    refine List.Nodup.map_on (fun a _ b _ h => ?_) List.nodup_range
    exact Nat.add_left_cancel (sweepLabel_inj h)
  have hsub : ((List.range (used.length + 1)).map fun k => sweepLabel (1 + k)) ⊆ used := by
    intro l hl
    obtain ⟨k, hk, rfl⟩ := List.mem_map.mp hl
    exact hall k (Nat.lt_succ_iff.mp (List.mem_range.mp hk))
  have hle := (List.subperm_of_subset hn hsub).length_le
  rw [List.length_map, List.length_range] at hle
  omega

/-- Sections that share a fact are one section, where no fact is assigned twice. -/
theorem section_eq {sec sec' : Section} {f : PyStr} (hn : (sections.flatMap Section.factIds).Nodup)
    (hs : sec ∈ sections) (hs' : sec' ∈ sections) (hf : f ∈ sec.factIds) (hf' : f ∈ sec'.factIds) :
    sec = sec' := by
  induction sections with
  | nil => exact absurd hs List.not_mem_nil
  | cons a rest ih =>
    rw [List.flatMap_cons, List.nodup_append] at hn
    obtain ⟨-, hrest, hdisj⟩ := hn
    rcases List.mem_cons.mp hs with he | hin
    · rcases List.mem_cons.mp hs' with he' | hin'
      · rw [he, he']
      · exact absurd rfl (hdisj f (he ▸ hf) f (List.mem_flatMap.mpr ⟨sec', hin', hf'⟩))
    · rcases List.mem_cons.mp hs' with he' | hin'
      · exact absurd rfl (hdisj f (he' ▸ hf') f (List.mem_flatMap.mpr ⟨sec, hin, hf⟩))
      · exact ih hrest hin hin'

/-- The sections cover each fact of the closure once, under the planner's titles, labels and order. -/
structure Covers (planned : List Section) (closureIds : List PyStr) (sections : List Section) : Prop where
  labels : (sections.map Section.label).Nodup
  planner : ∃ kept swept, sections = kept ++ swept ∧ List.Forall₂ Trimmed kept planned ∧ swept.length ≤ 1
  partition : (sections.flatMap Section.factIds).Perm closureIds
  checked : checkCoverage sections closureIds = .ok ()
  stable : normalizeCoverage sections closureIds = (sections, [])

theorem checkCoverage_ok (hn : closureIds.Nodup) (hp : (sections.flatMap Section.factIds).Perm closureIds) :
    checkCoverage sections closureIds = .ok () := by
  have hdups : (sections.flatMap Section.factIds).filter
      (fun f => 1 < (sections.flatMap Section.factIds).count f) = [] := by
    refine List.filter_eq_nil_iff.mpr fun f _ => ?_
    have hcount := List.nodup_iff_count_le_one.mp (hp.nodup_iff.mpr hn) f
    simpa using hcount
  have hextra : (sections.flatMap Section.factIds).filter (· ∉ closureIds) = [] :=
    List.filter_eq_nil_iff.mpr fun f hf => by simpa using hp.mem_iff.mp hf
  have hmissing : closureIds.filter (· ∉ sections.flatMap Section.factIds) = [] :=
    List.filter_eq_nil_iff.mpr fun f hf => by simpa using hp.mem_iff.mpr hf
  simp only [checkCoverage, hdups, hextra, hmissing, ne_eq, not_true_eq_false, if_false]

theorem normalizeCoverage_self (hn : closureIds.Nodup)
    (hp : (sections.flatMap Section.factIds).Perm closureIds) :
    normalizeCoverage sections closureIds = (sections, []) := by
  have hself := repairSections_self (t := {}) (fun f hf => hp.mem_iff.mp hf)
    (by rw [List.nil_append]; exact hp.nodup_iff.mpr hn)
  have hmissing : closureIds.filter (· ∉ [] ++ sections.flatMap Section.factIds) = [] :=
    List.filter_eq_nil_iff.mpr fun f hf => by simpa using hp.mem_iff.mpr hf
  rw [normalizeCoverage, hself]
  exact if_pos hmissing

/-- The repaired sections, and one more for the facts that none of them names. -/
theorem normalizeCoverage_sections (planned : List Section) (closureIds : List PyStr) :
    (normalizeCoverage planned closureIds).1 = (repairSections closureIds {} planned).1 ++
      let missing := closureIds.filter (· ∉ (repairSections closureIds {} planned).2.seen)
      if missing = [] then []
      else [⟨"Additional results".toList,
        freshLabel ((repairSections closureIds {} planned).1.map Section.label), missing⟩] := by
  rw [normalizeCoverage]
  by_cases hm : closureIds.filter (· ∉ (repairSections closureIds {} planned).2.seen) = []
  · simp only [if_pos hm, List.append_nil]
  · simp only [if_neg hm]

/-- The repair of any plan with distinct labels covers the closure. -/
theorem normalizeCoverage_covers (hlabels : (planned.map Section.label).Nodup) (hn : closureIds.Nodup) :
    Covers planned closureIds (normalizeCoverage planned closureIds).1 := by
  have hkeeps := repairSections_keeps closureIds planned {}
  have htrim := repairSections_trimmed closureIds planned {}
  generalize hr : repairSections closureIds {} planned = r at hkeeps htrim
  have hseen : r.2.seen = r.1.flatMap Section.factIds := by rw [hkeeps.seen, List.nil_append]
  have hseenNodup : r.2.seen.Nodup := hkeeps.nodup List.nodup_nil
  have hrlabels : (r.1.map Section.label).Nodup := by rwa [labels_of_trimmed htrim]
  -- the facts that the sections name, and those that the last one sweeps up
  have hperm : (r.2.seen ++ closureIds.filter (· ∉ r.2.seen)).Perm closureIds := by
    refine (List.perm_ext_iff_of_nodup ?_ hn).mpr fun f => ?_
    · refine List.nodup_append.mpr ⟨hseenNodup, hn.filter _, fun a ha b hb he => ?_⟩
      rw [← he] at hb
      exact of_decide_eq_true (List.mem_filter.mp hb).2 ha
    · rw [List.mem_append, List.mem_filter, decide_eq_true_eq]
      refine ⟨fun h => h.elim (fun hs => hkeeps.kept_mem f (hseen ▸ hs)) And.left, fun hf => ?_⟩
      by_cases hs : f ∈ r.2.seen
      · exact .inl hs
      · exact .inr ⟨hf, hs⟩
  have hcovers : ∀ swept : List Section, swept.length ≤ 1 →
      ((r.1 ++ swept).map Section.label).Nodup → ((r.1 ++ swept).flatMap Section.factIds).Perm closureIds →
      Covers planned closureIds (r.1 ++ swept) := fun swept hone hl hp =>
    ⟨hl, ⟨r.1, swept, rfl, htrim, hone⟩, hp, checkCoverage_ok hn hp, normalizeCoverage_self hn hp⟩
  rw [normalizeCoverage_sections, hr]
  by_cases hmissing : closureIds.filter (· ∉ r.2.seen) = []
  · rw [hmissing, List.append_nil, hseen] at hperm
    simp only [if_pos hmissing]
    refine hcovers [] (Nat.zero_le 1) ?_ ?_
    · rwa [List.append_nil]
    · rwa [List.append_nil]
  · simp only [if_neg hmissing]
    refine hcovers _ (Nat.le_refl 1) ?_ ?_
    · rw [List.map_append, List.nodup_append]
      refine ⟨hrlabels, List.nodup_singleton _, fun a ha b hb he => ?_⟩
      rw [he, List.mem_singleton.mp hb] at ha
      exact freshLabel_not_mem _ ha
    · rw [List.flatMap_append, ← hseen, List.flatMap_singleton]
      exact hperm

end Plans
end Danus.WritePaper.Chunked
