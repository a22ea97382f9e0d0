import Danus.Lib.Joined
import Danus.WritePaper.SectionPlan

/-! A paper written section by section: the prompts, what comes back, and the document made of it. -/
namespace Danus.WritePaper.Chunked
open Python Matching FactOrder
open Danus.Authoring (promptSection promptSection_frame bodySections)
open Danus.FactGraph (Runtime asciiRuntime startsWith parseFrontmatter statementOf)

section Blocks
variable [Runtime] (fg : Active)

/-- The tag of a fact, and the line with what it builds on. -/
def blockHeader (fid : PyStr) : PyStr :=
  let preds := (parseFrontmatter ((fg.getRaw fid).getD [])).predecessors
  let predLine := if preds = [] then "(none)".toList else joinWith ", ".toList preds
  "[source_fact: ".toList ++ fid ++ "]\npredecessors (DAG): ".toList ++ predLine ++ "\n".toList

/-- `_fact_block` -/
def factBlock (fid : PyStr) : PyStr :=
  blockHeader fg fid ++ "\n".toList ++ bodySections ((fg.getRaw fid).getD [])

/-- `_statement_block` -/
def statementBlock (fid : PyStr) : PyStr :=
  let stmt := strip (statementOf ((fg.getRaw fid).getD []))
  blockHeader fg fid ++ "\n## statement\n".toList ++
    (if stmt = [] then "(empty statement)".toList else stmt) ++ "\n".toList

/-- `full_bodies_for` -/
def fullBodiesFor (factIds : List PyStr) : PyStr :=
  if factIds = [] then "_(this section has no assigned facts — write only its prose)_\n".toList
  else joinWith "\n".toList (factIds.map (factBlock fg))

/-- `statements_for` -/
def statementsFor (factIds : List PyStr) : PyStr :=
  if factIds = [] then "_(no other closure facts)_\n".toList
  else joinWith "\n".toList (factIds.map (statementBlock fg))

/-- The last place of an id in the order; one that is not there comes after all. -/
def positionIn (order : List PyStr) (f : PyStr) : Nat :=
  if f ∈ order then order.length - 1 - order.reverse.idxOf f else order.length

/-- `section_ref_context_ids` -/
def sectionRefContextIds (sectionFactIds order : List PyStr) : List PyStr :=
  let want := ((sectionFactIds.flatMap fg.predecessors).filter (· ∉ sectionFactIds)).dedup
  want.insertionSort fun a b => positionIn order a ≤ positionIn order b

end Blocks

/-- The files that the prompts embed as they are. -/
structure PromptFiles where
  agents : PyStr
  planner : PyStr
  sectionWriter : PyStr
  style : PyStr
  paperStructure : PyStr
  boilerplate : PyStr
  brief : PyStr
  ledger : PyStr

/-- The arguments of `generate`. -/
structure Request [Runtime] where
  files : PromptFiles
  fg : Active
  headline : List PyStr
  factIds : Option (List PyStr)
  instructions : Option PyStr

/-- What the driver returns of one codex run. -/
structure Reply where
  status : PyStr
  returncode : Option Int
  stdout : PyStr
  error : PyStr

def Reply.Ok (r : Reply) : Prop := r.status = "ok".toList

instance (r : Reply) : Decidable r.Ok := by
  unfold Reply.Ok
  infer_instance

/-- A plan that parses, with the facts that its sections have to cover. -/
structure Plan where
  blocks : Blocks
  planned : List Section
  coverage : List PyStr
  referenced : List PyStr

namespace Plan

/-- The sections after the repair. -/
def sections (p : Plan) : List Section := (normalizeCoverage p.planned p.coverage).1

def repairs (p : Plan) : List RepairNote := (normalizeCoverage p.planned p.coverage).2

end Plan

/-- `s.rstrip("\n")` -/
def rstripNewlines (s : PyStr) : PyStr := (s.reverse.dropWhile (· = '\n')).reverse

section Prompts
variable [Runtime] (req : Request)

/-- The facts to cover, and those that are only cited. -/
def coverageOf : Except AssembleError (List PyStr × List PyStr) :=
  if req.factIds.getD [] ≠ [] then selectedPartition req.fg (req.factIds.getD [])
  else (closureOrder req.fg [] [] (some req.headline)).map fun ids => (ids, [])

/-- `statements_only_content` of a headline -/
def statementsOnlyContent : Except AssembleError PyStr :=
  (closureOrder req.fg [] [] (some req.headline)).map fun ids =>
    if ids = [] then "_(no verified facts found in the project fact graph)_\n".toList
    else joinWith "\n".toList (ids.map (statementBlock req.fg))

/-- The statements that the planner sees. -/
def closureStatements : Except AssembleError PyStr :=
  if req.factIds.getD [] ≠ [] then
    (selectedPartition req.fg (req.factIds.getD [])).map fun parts => statementsFor req.fg parts.1
  else statementsOnlyContent req

/-- `build_planner_prompt` -/
def buildPlannerPrompt : Except AssembleError PyStr :=
  (closureStatements req).map fun statements =>
  ("You are the PAPER PLANNER. Everything you need is embedded below; you have " ++
    "no filesystem to read. This paper is generated section-by-section because " ++
    "its closure is too large for one pass. Produce the fixed preamble, front " ++
    "matter, section plan, and bibliography per the contract and role prompt.").toList ++
  promptSection "AGENTS.md".toList req.files.agents ++
  promptSection "PAPER_PLANNER_PROMPT.md".toList req.files.planner ++
  promptSection "STYLE_GUIDE.md".toList req.files.style ++
  promptSection "PAPER_STRUCTURE.md".toList req.files.paperStructure ++
  promptSection "ACKNOWLEDGEMENT_BOILERPLATE.md".toList req.files.boilerplate ++
  promptSection "PROJECT_BRIEF.md".toList req.files.brief ++
  (if strip (req.instructions.getD []) = [] then []
    else promptSection "MAIN_AGENT_INSTRUCTIONS".toList (strip (req.instructions.getD []))) ++
  promptSection "REFERENCE_LEDGER.md".toList req.files.ledger ++
  promptSection "CLOSURE_STATEMENTS".toList statements

/-- What every section writer is told before its own facts. -/
def sectionPreface (preambleFrontmatter sectionPlan title label : PyStr) : PyStr :=
  ("You are the PAPER SECTION WRITER. Everything you need is embedded below; " ++
    "you have no filesystem to read. The preamble, front matter, section plan, " ++
    "and bibliography are already FIXED by the planner — write ONLY this " ++
    "section's body per the contract and role prompt.").toList ++
  promptSection "AGENTS.md".toList req.files.agents ++
  promptSection "PAPER_SECTION_WRITER_PROMPT.md".toList req.files.sectionWriter ++
  promptSection "STYLE_GUIDE.md".toList req.files.style ++
  promptSection "PAPER_STRUCTURE.md".toList req.files.paperStructure ++
  promptSection "PROJECT_BRIEF.md".toList req.files.brief ++
  promptSection "REFERENCE_LEDGER.md".toList req.files.ledger ++
  promptSection "FIXED_PREAMBLE_AND_FRONTMATTER (reference only — do NOT re-emit)".toList preambleFrontmatter ++
  promptSection "SECTION_PLAN (all sections' titles+labels, in order)".toList sectionPlan ++
  promptSection
    ("THIS_SECTION (title=".toList ++ Runtime.reprText title ++ ", label=".toList ++ Runtime.reprText label ++
      ")".toList)
    ("Write \\section\x7b".toList ++ title ++ "\x7d\\label\x7b".toList ++ label ++ "\x7d and its body.".toList)

/-- `build_section_writer_prompt` -/
def buildSectionWriterPrompt (title label sectionFacts otherStatements preambleFrontmatter sectionPlan : PyStr) :
    PyStr :=
  sectionPreface req preambleFrontmatter sectionPlan title label ++
  promptSection "THIS_SECTION_FACTS (full bodies — render these)".toList sectionFacts ++
  promptSection "OTHER_CLOSURE_FACTS (STATEMENTS ONLY — \\ref these, never re-prove)".toList otherStatements

/-- The titles and labels of a plan, from one number on. -/
def digestFrom : Nat → List Section → List PyStr
  | _, [] => []
  | i, sec :: sections =>
    (natText i ++ ". \\section\x7b".toList ++ sec.title ++ "\x7d  ->  \\label\x7b".toList ++ sec.label ++
      "\x7d".toList) :: digestFrom (i + 1) sections

/-- The prompt of one section. -/
def sectionPrompt (p : Plan) (sec : Section) : PyStr :=
  buildSectionWriterPrompt req sec.title sec.label (fullBodiesFor req.fg sec.factIds)
    (statementsFor req.fg (sectionRefContextIds req.fg sec.factIds (p.coverage ++ p.referenced)))
    (rstripNewlines p.blocks.preamble ++ "\n\n".toList ++ rstripNewlines p.blocks.frontmatter ++ "\n".toList)
    (joinWith "\n".toList (digestFrom 1 p.sections))

/-- The plan in the planner's output; facts that are not there raise. -/
def planOf (stdout : PyStr) : Except AssembleError (Except PlanError Plan) :=
  match splitPlannerOutput stdout with
  | .error e => .ok (.error e)
  | .ok blocks =>
    match parseSections blocks.sections with
    | .error e => .ok (.error e)
    | .ok planned => (coverageOf req).map fun parts => .ok ⟨blocks, planned, parts.1, parts.2⟩

end Prompts

section Stitching

/-- `_SEP_PROVENANCE` -/
def sepProvenance : PyStr := "%%%PROVENANCE%%%".toList

/-- `_FENCE_OPEN_RE.match` -/
def fenceOpen (t : PyStr) : Option PyStr :=
  (literal "```".toList t).bind fun rest =>
    let rest := rest.dropWhile fun c => isAlnumAscii c || c == '_' || c == '+' || c == '-'
    match rest.dropWhile fun c => c == ' ' || c == '\t' with
    | '\n' :: body => some body
    | _ => none

/-- `_strip_code_fence` -/
def stripCodeFence (s : PyStr) : PyStr :=
  match fenceOpen (rstripNewlines (s.dropWhile (· = '\n'))) with
  | none => s
  | some t =>
    (if "```".toList <:+ rstrip t then rstripNewlines ((rstrip t).take ((rstrip t).length - 3)) else t) ++ ['\n']

/-- `_split_section_output` -/
def splitSectionOutput (stdout : PyStr) : PyStr × Option (List (PyStr × Json)) :=
  match cutFirst sepProvenance stdout with
  | none => (stripCodeFence stdout, none)
  | some (texPart, provPart) =>
    match Json.parse (strip provPart) with
    | some (.obj items) => (stripCodeFence texPart, some items)
    | _ => (stripCodeFence texPart, none)

/-- `\end{document}` -/
def endDocument : PyStr := "\\end\x7bdocument\x7d".toList

/-- The blocks that have something in them, without the newlines at their ends. -/
def shown (parts : List PyStr) : List PyStr := (parts.map rstripNewlines).filter (strip · ≠ [])

/-- `stitch` -/
def stitch (preamble frontmatter : PyStr) (sectionBodies : List PyStr) (bibliography : PyStr) : PyStr :=
  let stitched := joinWith "\n\n".toList (shown ([preamble, frontmatter] ++ sectionBodies ++ [bibliography]))
  if endDocument <:+: stitched then stitched ++ "\n".toList
  else stitched ++ "\n\n".toList ++ endDocument ++ "\n".toList

end Stitching

section Generation
variable [Runtime] (req : Request) (decoder : PyStr → PyStr) (drive : Nat → PyStr → Reply)

/-- An entry of the phase log. -/
inductive PhaseLog where
  | codex (phase status : PyStr) (returncode : Option Int)
  | coverage (repairs : List PyStr)
  | stitched (sections : Nat)

/-- What `generate` returns. -/
inductive Generated where
  | done (tex : PyStr) (provenance : Option (List (PyStr × Json))) (sections : Nat) (phaseLogs : List PhaseLog)
  | failed (phase error prompt : PyStr) (phaseLogs : List PhaseLog)

/-- `error or text` -/
def orText (error text : PyStr) : PyStr := if error = [] then text else error

/-- `merged.setdefault(k, v)` over what one section maps. -/
def mergeProvenance (merged : List (PyStr × Json)) (prov : Option (List (PyStr × Json))) : List (PyStr × Json) :=
  (prov.getD []).foldl (fun m item => if item.1 ∈ m.map Prod.fst then m else m ++ [item]) merged

/-- The name of a section's phase. -/
def sectionPhase (sec : Section) : PyStr := "section:".toList ++ sec.label

/-- Phase 2: the section writers one after the other, from the `k`-th codex run on. -/
def fill (p : Plan) : Nat → List PhaseLog → List Section →
    Except Generated (List PhaseLog × List (PyStr × Option (List (PyStr × Json))))
  | _, logs, [] => .ok (logs, [])
  | k, logs, sec :: rest =>
    let prompt := sectionPrompt req p sec
    let reply := drive k prompt
    let logs := logs ++ [.codex (sectionPhase sec) reply.status reply.returncode]
    if reply.Ok then
      (fill p (k + 1) logs rest).map fun r => (r.1, splitSectionOutput reply.stdout :: r.2)
    else .error (.failed (sectionPhase sec)
      (orText reply.error "section-writer codex returned non-ok".toList) prompt logs)

/-- Phases 2 and 3 of a plan. -/
def writePlan (p : Plan) (logs : List PhaseLog) : Generated :=
  match fill req drive p 1 (logs ++ [.coverage (p.repairs.map RepairNote.text)]) p.sections with
  | .error failure => failure
  | .ok (logs, outputs) =>
    let merged := outputs.foldl (fun m output => mergeProvenance m output.2) []
    .done (stitch p.blocks.preamble p.blocks.frontmatter (outputs.map Prod.fst) p.blocks.bibliography)
      (if merged = [] then none else some merged) p.sections.length (logs ++ [.stitched p.sections.length])

/-- `generate` -/
def generate : Except AssembleError Generated :=
  (buildPlannerPrompt req).bind fun planPrompt =>
    let planRes := drive 0 planPrompt
    let logs := [PhaseLog.codex "plan".toList planRes.status planRes.returncode]
    if planRes.Ok then
      (planOf req planRes.stdout).map fun
        | .error e => .failed "plan".toList (e.message (decoder planRes.stdout)) planPrompt logs
        | .ok p => writePlan req drive p logs
    else .ok (.failed "plan".toList (orText planRes.error "planner codex returned non-ok".toList) planPrompt logs)

end Generation

section Documents
variable {parts bodies : List PyStr} {preamble frontmatter bibliography tex last : PyStr}

theorem endDocument_line : '\n' ∉ endDocument ∧ endDocument ≠ [] := by decide

theorem infix_blocks : endDocument <:+: joinWith "\n\n".toList parts ↔ ∃ part ∈ parts, endDocument <:+: part :=
  infix_joinWith (by decide) (by decide) endDocument_line.2

/-- The last line is the closing one. -/
def EndsDocument (tex : PyStr) : Prop :=
  tex = endDocument ++ "\n".toList ∨ ∃ before, tex = before ++ '\n' :: (endDocument ++ "\n".toList)

/-- The last line of a block is the closing one. -/
def Closes (block : PyStr) : Prop := block = endDocument ∨ '\n' :: endDocument <:+ block

/-- No block has the closing command in it, or the last one ends in the closing line. -/
def Closable (blocks : List PyStr) : Prop :=
  (∀ b ∈ blocks, ¬ endDocument <:+: b) ∨ ∃ last ∈ blocks.getLast?, Closes last

theorem endsDocument_newline {s : PyStr} : EndsDocument (s ++ "\n".toList) ↔ Closes s := by
  constructor
  · rintro (h | ⟨before, h⟩)
    · exact .inl (List.append_cancel_right h)
    · rw [← List.cons_append, ← List.append_assoc] at h
      exact .inr ⟨before, (List.append_cancel_right h).symm⟩
  · rintro (h | ⟨before, h⟩)
    · exact .inl (by rw [h])
    · refine .inr ⟨before, ?_⟩
      rw [← h, List.append_assoc, List.cons_append]

/-- Two newlines before the last block do not make a closing line of it. -/
theorem closes_joinWith (hlast : last ∈ parts.getLast?) :
    Closes (joinWith "\n\n".toList parts) ↔ Closes last := by
  obtain ⟨before, he, hb⟩ := joinWith_last "\n\n".toList hlast
  rw [he]
  constructor
  · rintro (h | ⟨a, h⟩)
    · rcases hb with rfl | ⟨u, rfl⟩
      · exact .inl h
      · refine absurd ?_ endDocument_line.1
        rw [← h]
        simp
    · rcases List.append_eq_append_iff.mp h with ⟨x, hx, hrest⟩ | ⟨x, ha, hrest⟩
      · -- the closing line begins in what stands before the last block
        cases x with
        | nil => exact .inr ⟨[], hrest⟩
        | cons c x =>
          obtain ⟨hc, hrest⟩ := List.cons.inj hrest
          rcases hb with rfl | ⟨u, rfl⟩
          · simp at hx
          · have hx' : '\n' ∉ x := fun hm => endDocument_line.1 (hrest ▸ List.mem_append_left _ hm)
            cases x using List.reverseRecOn with
            | nil => exact .inl hrest.symm
            | append_singleton x d =>
              have hd : d = '\n' := by
                have hx : u ++ ['\n'] ++ ['\n'] = a ++ c :: x ++ [d] := by simpa using hx
                exact (List.cons.inj (List.append_inj' hx rfl).2).1.symm
              exact absurd (by simp [hd]) hx'
      · exact .inr ⟨x, hrest.symm⟩
  · rintro (h | h)
    · rcases hb with rfl | ⟨u, rfl⟩
      · exact .inl h
      · refine .inr ⟨u ++ "\n".toList, ?_⟩
        rw [h]
        simp
    · exact .inr (h.trans (List.suffix_append _ _))

/-- The document ends in the closing line where a block closes it last, or none has the command at all. -/
theorem endsDocument_stitch : EndsDocument (stitch preamble frontmatter bodies bibliography) ↔
    Closable (shown ([preamble, frontmatter] ++ bodies ++ [bibliography])) := by
  rw [stitch]
  generalize shown ([preamble, frontmatter] ++ bodies ++ [bibliography]) = blocks
  split_ifs with hin
  · rw [endsDocument_newline]
    obtain ⟨block, hmem, hb⟩ := infix_blocks.mp hin
    obtain ⟨last, hlast⟩ : ∃ last, last ∈ blocks.getLast? :=
      ⟨_, List.getLast?_eq_some_getLast (List.ne_nil_of_mem hmem)⟩
    rw [closes_joinWith hlast]
    constructor
    · exact fun h => .inr ⟨last, hlast, h⟩
    · rintro (hnone | ⟨last', hlast', h⟩)
      · exact absurd hb (hnone block hmem)
      · rw [Option.mem_def, hlast] at hlast'
        cases hlast'
        exact h
  · refine iff_of_true (.inr ⟨joinWith "\n\n".toList blocks ++ "\n".toList, ?_⟩) (.inl fun b hb h => ?_)
    · simp
    · exact hin (infix_blocks.mpr ⟨b, hb, h⟩)

/-- The document has the section bodies in plan order and then the bibliography, each without the newlines at
its end and a blank one left out, and ends in the closing line. -/
structure Delivers (bodies : List PyStr) (bibliography tex : PyStr) : Prop where
  inOrder : joinWith "\n\n".toList (shown (bodies ++ [bibliography])) <:+: tex
  closed : EndsDocument tex

theorem shown_append (l l' : List PyStr) : shown (l ++ l') = shown l ++ shown l' := by
  rw [shown, List.map_append, List.filter_append, shown, shown]

theorem delivers_stitch : Delivers bodies bibliography (stitch preamble frontmatter bodies bibliography) ↔
    Closable (shown ([preamble, frontmatter] ++ bodies ++ [bibliography])) := by
  rw [← endsDocument_stitch]
  refine ⟨Delivers.closed, fun h => ⟨?_, h⟩⟩
  have hin : joinWith "\n\n".toList (shown (bodies ++ [bibliography])) <:+:
      joinWith "\n\n".toList (shown ([preamble, frontmatter] ++ bodies ++ [bibliography])) := by
    rw [List.append_assoc, shown_append [preamble, frontmatter]]
    exact joinWith_infix_append _ _ _
  rw [stitch]
  split_ifs
  · exact hin.trans (List.prefix_append _ _).isInfix
  · rw [List.append_assoc, List.append_assoc]
    exact hin.trans (List.prefix_append _ _).isInfix

end Documents

/-- Each covered fact is in exactly one section. -/
theorem existsUnique_section {p : Plan} {f : PyStr} (h : Covers p.planned p.coverage p.sections)
    (hcov : p.coverage.Nodup) (hf : f ∈ p.coverage) : ∃! sec, sec ∈ p.sections ∧ f ∈ sec.factIds := by
  obtain ⟨sec, hsec, hmem⟩ := List.mem_flatMap.mp (h.partition.mem_iff.mpr hf)
  exact ⟨sec, ⟨hsec, hmem⟩, fun other ho => section_eq (h.partition.nodup_iff.mpr hcov) ho.1 hsec ho.2 hmem⟩

section Runs
variable [Runtime] {req : Request} {decoder : PyStr → PyStr} {drive : Nat → PyStr → Reply} {p : Plan}
  {sections : List Section} {sec : Section} {logs : List PhaseLog}

/-- Every section writer, from the `k`-th codex run on, returns ok. -/
def AllOk (req : Request) (drive : Nat → PyStr → Reply) (p : Plan) : Nat → List Section → Prop
  | _, [] => True
  | k, sec :: rest => (drive k (sectionPrompt req p sec)).Ok ∧ AllOk req drive p (k + 1) rest

/-- The bodies that they return. -/
def bodiesFrom (req : Request) (drive : Nat → PyStr → Reply) (p : Plan) : Nat → List Section → List PyStr
  | _, [] => []
  | k, sec :: rest =>
    (splitSectionOutput (drive k (sectionPrompt req p sec)).stdout).1 :: bodiesFrom req drive p (k + 1) rest

/-- No document was written. -/
def Generated.Failed : Generated → Prop
  | done .. => False
  | failed .. => True

/-- The writers run to the end or to the first that is not ok. -/
theorem fill_spec (k : Nat) (logs : List PhaseLog) (sections : List Section) :
    (AllOk req drive p k sections → ∃ out, fill req drive p k logs sections = .ok out ∧
      out.2.map Prod.fst = bodiesFrom req drive p k sections) ∧
    (¬ AllOk req drive p k sections → ∃ failure,
      fill req drive p k logs sections = .error failure ∧ failure.Failed) := by
  induction sections generalizing k logs with
  | nil => exact ⟨fun _ => ⟨_, rfl, rfl⟩, fun h => absurd trivial h⟩
  | cons sec rest ih =>
    obtain ⟨hok, hfail⟩ := ih (k + 1)
      (logs ++ [.codex (sectionPhase sec) (drive k (sectionPrompt req p sec)).status
        (drive k (sectionPrompt req p sec)).returncode])
    by_cases hfirst : (drive k (sectionPrompt req p sec)).Ok
    · refine ⟨fun h => ?_, fun h => ?_⟩
      · obtain ⟨out, hout, hbodies⟩ := hok h.2
        refine ⟨(out.1, splitSectionOutput (drive k (sectionPrompt req p sec)).stdout :: out.2), ?_, ?_⟩
        · rw [fill, if_pos hfirst, hout]
          rfl
        · rw [List.map_cons, hbodies, bodiesFrom]
      · obtain ⟨failure, he, hf⟩ := hfail fun hrest => h ⟨hfirst, hrest⟩
        refine ⟨failure, ?_, hf⟩
        rw [fill, if_pos hfirst, he]
        rfl
    · exact ⟨fun h => absurd h.1 hfirst, fun _ => ⟨_, if_neg hfirst, trivial⟩⟩

/-- A document is written where every section writer returns ok, and it is the stitched one. -/
theorem writePlan_done : (∃ tex prov n logs', writePlan req drive p logs = .done tex prov n logs') ↔
    AllOk req drive p 1 p.sections := by
  obtain ⟨hok, hfail⟩ := @fill_spec _ req drive p 1
    (logs ++ [.coverage (p.repairs.map RepairNote.text)]) p.sections
  by_cases h : AllOk req drive p 1 p.sections
  · obtain ⟨out, hout, -⟩ := hok h
    refine iff_of_true ?_ h
    rw [writePlan, hout]
    exact ⟨_, _, _, _, rfl⟩
  · obtain ⟨failure, he, hf⟩ := hfail h
    refine iff_of_false ?_ h
    rintro ⟨tex, prov, n, logs', hd⟩
    rw [writePlan, he] at hd
    have hfailure : failure = .done tex prov n logs' := hd
    rw [hfailure] at hf
    exact hf

theorem writePlan_tex {tex : PyStr} {prov : Option (List (PyStr × Json))} {n : Nat} {logs' : List PhaseLog}
    (h : writePlan req drive p logs = .done tex prov n logs') :
    tex = stitch p.blocks.preamble p.blocks.frontmatter (bodiesFrom req drive p 1 p.sections)
      p.blocks.bibliography := by
  obtain ⟨out, hout, hbodies⟩ := (fill_spec 1 (logs ++ [.coverage (p.repairs.map RepairNote.text)])
    p.sections).1 (writePlan_done.mp ⟨_, _, _, _, h⟩)
  rw [writePlan, hout] at h
  rw [← hbodies]
  cases h
  rfl

/-- The prompt of a section has the bodies of its facts in it, and after them the statements; what is around
them depends neither on the graph nor on which facts these are. -/
theorem sectionPrompt_frame (req : Request) (p : Plan) (sec : Section) : ∃ before between after,
    ∀ (fg : Active) (factIds : List PyStr), sectionPrompt { req with fg := fg } p { sec with factIds := factIds } =
      before ++ fullBodiesFor fg factIds ++ between ++
        statementsFor fg (sectionRefContextIds fg factIds (p.coverage ++ p.referenced)) ++ after := by
  obtain ⟨a, b, hfull⟩ := promptSection_frame "THIS_SECTION_FACTS (full bodies — render these)".toList
  obtain ⟨c, d, hstmt⟩ := promptSection_frame
    "OTHER_CLOSURE_FACTS (STATEMENTS ONLY — \\ref these, never re-prove)".toList
  have hparts (pre full stmt : PyStr) : pre ++ (a ++ full ++ b) ++ (c ++ stmt ++ d) =
      pre ++ a ++ full ++ (b ++ c) ++ stmt ++ d := by simp only [List.append_assoc]
  refine ⟨sectionPreface req
      (rstripNewlines p.blocks.preamble ++ "\n\n".toList ++ rstripNewlines p.blocks.frontmatter ++ "\n".toList)
      (joinWith "\n".toList (digestFrom 1 p.sections)) sec.title sec.label ++ a, b ++ c, d, fun fg factIds => ?_⟩
  rw [sectionPrompt, buildSectionWriterPrompt, hfull, hstmt]
  exact hparts _ _ _

theorem infix_fullBodiesFor {fg : Active} {ids : List PyStr} {f : PyStr} (hf : f ∈ ids) :
    factBlock fg f <:+: fullBodiesFor fg ids := by
  rw [fullBodiesFor, if_neg (List.ne_nil_of_mem hf)]
  exact infix_joinWith_of_mem (List.mem_map_of_mem hf)

theorem infix_statementsFor {fg : Active} {ids : List PyStr} {f : PyStr} (hf : f ∈ ids) :
    statementBlock fg f <:+: statementsFor fg ids := by
  rw [statementsFor, if_neg (List.ne_nil_of_mem hf)]
  exact infix_joinWith_of_mem (List.mem_map_of_mem hf)

/-- The context of some facts are the facts that they build on, without themselves. -/
theorem mem_sectionRefContextIds {fg : Active} {ids order : List PyStr} {q : PyStr} :
    q ∈ sectionRefContextIds fg ids order ↔ (∃ f ∈ ids, q ∈ fg.predecessors f) ∧ q ∉ ids := by
  rw [sectionRefContextIds, (List.perm_insertionSort _ _).mem_iff, List.mem_dedup, List.mem_filter,
    List.mem_flatMap, decide_eq_true_eq]

/-- What is embedded in the prompt of a section. -/
structure Embeds (req : Request) (p : Plan) (sec : Section) : Prop where
  /-- The prompt is a frame around the bodies of just its facts and the statements of just its context: with
  another graph, or other facts assigned to it, only these are others. -/
  prompt : ∃ before between after, ∀ (fg : Active) (factIds : List PyStr),
    sectionPrompt { req with fg := fg } p { sec with factIds := factIds } = before ++ fullBodiesFor fg factIds ++
      between ++ statementsFor fg (sectionRefContextIds fg factIds (p.coverage ++ p.referenced)) ++ after
  full : ∀ f ∈ sec.factIds, factBlock req.fg f <:+: sectionPrompt req p sec
  context : ∀ f ∈ sec.factIds, ∀ q ∈ req.fg.predecessors f,
    factBlock req.fg q <:+: sectionPrompt req p sec ∨ statementBlock req.fg q <:+: sectionPrompt req p sec

theorem embeds_section (req : Request) (p : Plan) (sec : Section) : Embeds req p sec := by
  obtain ⟨before, between, after, hframe⟩ := sectionPrompt_frame req p sec
  have he := hframe req.fg sec.factIds
  change sectionPrompt req p sec = _ at he
  have hfull : fullBodiesFor req.fg sec.factIds <:+: sectionPrompt req p sec := by
    rw [he]
    refine ⟨before, between ++ (statementsFor req.fg
      (sectionRefContextIds req.fg sec.factIds (p.coverage ++ p.referenced)) ++ after), ?_⟩
    simp only [List.append_assoc]
  have hstmt : statementsFor req.fg (sectionRefContextIds req.fg sec.factIds (p.coverage ++ p.referenced)) <:+:
      sectionPrompt req p sec := by
    rw [he]
    exact ⟨_, after, rfl⟩
  refine ⟨⟨before, between, after, hframe⟩, fun f hf => (infix_fullBodiesFor hf).trans hfull, fun f hf q hq => ?_⟩
  by_cases hown : q ∈ sec.factIds
  · exact .inl ((infix_fullBodiesFor hown).trans hfull)
  · exact .inr ((infix_statementsFor (mem_sectionRefContextIds.mpr ⟨⟨f, hf, hq⟩, hown⟩)).trans hstmt)

/-- An order of facts has each of them once. -/
theorem toposort_nodup {fg : Active} {seeds : Option (List PyStr)} {ids : List PyStr}
    (h : toposortWithPredecessors fg seeds = .ok ids) : ids.Nodup := by
  have hsort : ∀ wanted : List PyStr, wanted.Nodup → (Sweeps.sweeps (predsIn fg wanted) [] wanted).Nodup :=
    fun wanted hn => (Sweeps.sweeps_perm [] wanted).nodup_iff.mpr hn
  cases seeds with
  | none =>
    cases h
    exact hsort _ fg.list_nodup
  | some seeds =>
    rw [toposortWithPredecessors] at h
    split at h
    · cases h
    · cases h
      exact hsort _ (fg.list_nodup.filter _)

/-- What the plan covers is each fact once. -/
theorem coverageOf_nodup {parts : List PyStr × List PyStr} (h : coverageOf req = .ok parts) : parts.1.Nodup := by
  rw [coverageOf] at h
  split_ifs at h with hsel
  · rw [selectedPartition] at h
    split_ifs at h
    obtain ⟨order, ho⟩ : ∃ order, toposortWithPredecessors req.fg none = .ok order := ⟨_, rfl⟩
    rw [ho] at h
    cases h
    exact (toposort_nodup ho).filter _
  · rw [closureOrder] at h
    cases ho : toposortWithPredecessors req.fg (some req.headline) with
    | error e =>
      rw [ho] at h
      cases h
    | ok ids =>
      rw [ho] at h
      cases h
      exact toposort_nodup ho

/-- Where there is a coverage there is a prompt for the planner. -/
theorem buildPlannerPrompt_ok {parts : List PyStr × List PyStr} (h : coverageOf req = .ok parts) :
    ∃ planPrompt, buildPlannerPrompt req = .ok planPrompt := by
  obtain ⟨statements, hs⟩ : ∃ statements, closureStatements req = .ok statements := by
    rw [coverageOf] at h
    rw [closureStatements]
    split_ifs at h ⊢ with hsel
    · rw [h]
      exact ⟨_, rfl⟩
    · rw [statementsOnlyContent]
      cases ho : closureOrder req.fg [] [] (some req.headline) with
      | error e =>
        rw [ho] at h
        cases h
      | ok ids => exact ⟨_, rfl⟩
  rw [buildPlannerPrompt, hs]
  exact ⟨_, rfl⟩

/-- The parts of a plan. -/
theorem planOf_ok {stdout : PyStr} (h : planOf req stdout = .ok (.ok p)) :
    splitPlannerOutput stdout = .ok p.blocks ∧ parseSections p.blocks.sections = .ok p.planned ∧
      coverageOf req = .ok (p.coverage, p.referenced) := by
  rw [planOf] at h
  split at h
  · cases h
  · rename_i blocks hblocks
    split at h
    · cases h
    · rename_i planned hplanned
      cases hc : coverageOf req with
      | error e =>
        rw [hc] at h
        cases h
      | ok parts =>
        rw [hc] at h
        cases h
        exact ⟨hblocks, hplanned, rfl⟩

/-- Chunked generation loses and duplicates nothing. -/
structure Lossless (req : Request) (decoder : PyStr → PyStr) (drive : Nat → PyStr → Reply) (p : Plan) : Prop where
  covers : Covers p.planned p.coverage p.sections
  once : ∀ f ∈ p.coverage, ∃! sec, sec ∈ p.sections ∧ f ∈ sec.factIds
  embeds : ∀ sec ∈ p.sections, Embeds req p sec
  delivers : ∀ tex prov n logs, generate req decoder drive = .ok (.done tex prov n logs) →
    Delivers (bodiesFrom req drive p 1 p.sections) p.blocks.bibliography tex

/-- The blocks of the document, in order. -/
def documentBlocks (req : Request) (drive : Nat → PyStr → Reply) (p : Plan) : List PyStr :=
  shown ([p.blocks.preamble, p.blocks.frontmatter] ++ bodiesFrom req drive p 1 p.sections ++ [p.blocks.bibliography])

variable {planPrompt : PyStr}

theorem generate_plan (hprompt : buildPlannerPrompt req = .ok planPrompt) (hok : (drive 0 planPrompt).Ok)
    (hp : planOf req (drive 0 planPrompt).stdout = .ok (.ok p)) : generate req decoder drive =
      .ok (writePlan req drive p
        [.codex "plan".toList (drive 0 planPrompt).status (drive 0 planPrompt).returncode]) := by
  rw [generate, hprompt]
  change (if (drive 0 planPrompt).Ok then _ else _) = _
  rw [if_pos hok, hp]
  rfl

/-- Each document delivers where the blocks can be closed. -/
theorem delivers_iff (hprompt : buildPlannerPrompt req = .ok planPrompt) (hok : (drive 0 planPrompt).Ok)
    (hp : planOf req (drive 0 planPrompt).stdout = .ok (.ok p)) :
    (∀ tex prov n logs, generate req decoder drive = .ok (.done tex prov n logs) →
      Delivers (bodiesFrom req drive p 1 p.sections) p.blocks.bibliography tex) ↔
    (AllOk req drive p 1 p.sections → Closable (documentBlocks req drive p)) := by
  have hgen := @generate_plan _ req decoder drive p planPrompt hprompt hok hp
  constructor
  · intro h hall
    obtain ⟨tex, prov, n, logs, hd⟩ := (@writePlan_done _ req drive p [.codex "plan".toList
      (drive 0 planPrompt).status (drive 0 planPrompt).returncode]).mpr hall
    have hdel := h tex prov n logs (by rw [hgen, hd])
    rw [writePlan_tex hd] at hdel
    exact delivers_stitch.mp hdel
  · intro h tex prov n logs hd
    rw [hgen] at hd
    have hd := Except.ok.inj hd
    rw [writePlan_tex hd]
    exact delivers_stitch.mpr (h (writePlan_done.mp ⟨_, _, _, _, hd⟩))

/-- Nothing is lost or duplicated on the way to the prompts, and the document is whole where no block closes it
before the last. -/
theorem generate_exact (hprompt : buildPlannerPrompt req = .ok planPrompt) (hok : (drive 0 planPrompt).Ok)
    (hp : planOf req (drive 0 planPrompt).stdout = .ok (.ok p)) :
    Lossless req decoder drive p ↔ (AllOk req drive p 1 p.sections → Closable (documentBlocks req drive p)) := by
  rw [← @delivers_iff _ req decoder drive p planPrompt hprompt hok hp]
  obtain ⟨-, hplanned, hcov⟩ := planOf_ok hp
  have hn : p.coverage.Nodup := coverageOf_nodup hcov
  have hcovers : Covers p.planned p.coverage p.sections :=
    normalizeCoverage_covers (parseSections_labels hplanned) hn
  refine ⟨Lossless.delivers, fun h => ⟨hcovers, fun f hf => ?_, fun sec _ => embeds_section req p sec, h⟩⟩
  exact existsUnique_section hcovers hn hf

end Runs

section Run

/-- What the planner prints. -/
def plannerText : PyStr :=
  ("%%%PREAMBLE%%%\nP\n%%%FRONTMATTER%%%\nF\n%%%SECTIONS%%%\n" ++
    "[\x7b\"title\": \"T\", \"label\": \"s\", \"fact_ids\": [\"a\"]\x7d]\n%%%BIBLIOGRAPHY%%%\nB\n").toList

def plannerBlocks : Blocks where
  preamble := "P\n".toList
  frontmatter := "F\n".toList
  sections := "[\x7b\"title\": \"T\", \"label\": \"s\", \"fact_ids\": [\"a\"]\x7d]\n".toList
  bibliography := "B\n".toList

@[reducible] def request : @Request asciiRuntime :=
  @Request.mk asciiRuntime ⟨[], [], [], [], [], [], [], []⟩ twoFacts ["a".toList] none none

/-- Section writers that all print one text. -/
def replies (text : PyStr) (k : Nat) (_prompt : PyStr) : Reply :=
  ⟨"ok".toList, some 0, if k = 0 then plannerText else text, []⟩

theorem replies_plan (text prompt : PyStr) :
    (replies text 0 prompt).Ok ∧ (replies text 0 prompt).stdout = plannerText := by
  constructor
  · exact Eq.refl "ok".toList
  · simp only [replies, if_true]

/-- A section writer's text that names the closing command in a comment. -/
def commentedText : PyStr := "S % no \\end\x7bdocument\x7d here\n".toList

theorem splitPlannerOutput_plannerText : splitPlannerOutput plannerText = .ok plannerBlocks := by decide +kernel

theorem parseSections_plannerBlocks :
    parseSections plannerBlocks.sections = .ok [⟨"T".toList, "s".toList, ["a".toList]⟩] := by decide +kernel

/-- The plan of the request. -/
theorem planOf_request : ∃ planPrompt p, @buildPlannerPrompt asciiRuntime request = .ok planPrompt ∧
    @planOf asciiRuntime request plannerText = .ok (.ok p) ∧ p.blocks = plannerBlocks ∧ p.planned ≠ [] := by
  obtain ⟨order, hok, -⟩ := @toposort_seeds asciiRuntime twoFacts ["a".toList] acyclic_twoFacts fun s hs => by
    rw [@Active.mem_list asciiRuntime, List.mem_singleton.mp hs]
    decide
  have hcov : @coverageOf asciiRuntime request = .ok (order, []) := by
    have hclosure : @closureOrder asciiRuntime twoFacts [] [] (some ["a".toList]) = .ok order := hok
    rw [@coverageOf.eq_1 asciiRuntime, if_neg (by decide), hclosure]
    rfl
  obtain ⟨planPrompt, hprompt⟩ := @buildPlannerPrompt_ok asciiRuntime request _ hcov
  refine ⟨planPrompt, ⟨plannerBlocks, [⟨"T".toList, "s".toList, ["a".toList]⟩], order, []⟩, hprompt, ?_, rfl,
    List.cons_ne_nil _ _⟩
  rw [@planOf.eq_1 asciiRuntime, splitPlannerOutput_plannerText]
  dsimp only
  rw [parseSections_plannerBlocks]
  dsimp only
  rw [hcov]
  rfl

theorem mem_bodiesFrom {p : Plan} {text body : PyStr} {sections : List Section} {k : Nat} (hk : k ≠ 0)
    (h : body ∈ @bodiesFrom asciiRuntime request (replies text) p k sections) :
    body = (splitSectionOutput text).1 := by
  induction sections generalizing k with
  | nil => exact absurd h List.not_mem_nil
  | cons sec rest ih =>
    rw [@bodiesFrom.eq_2 asciiRuntime, replies, if_neg hk] at h
    rcases List.mem_cons.mp h with rfl | h
    · rfl
    · exact ih (Nat.succ_ne_zero k) h

theorem bodiesFrom_ne_nil {p : Plan} {text : PyStr} {sections : List Section} {k : Nat} (h : sections ≠ []) :
    @bodiesFrom asciiRuntime request (replies text) p k sections ≠ [] := by
  cases sections with
  | nil => exact absurd rfl h
  | cons sec rest => exact List.cons_ne_nil _ _

theorem allOk_replies {p : Plan} {text : PyStr} (k : Nat) (sections : List Section) :
    @AllOk asciiRuntime request (replies text) p k sections := by
  induction sections generalizing k with
  | nil => trivial
  | cons sec rest ih => exact ⟨rfl, ih (k + 1)⟩

theorem generate_exact_request : ∃ p, @planOf asciiRuntime request plannerText = .ok (.ok p) ∧
    @Lossless asciiRuntime request (fun _ => []) (replies "S\n".toList) p := by
  obtain ⟨planPrompt, p, hprompt, hp, hblocks, -⟩ := planOf_request
  have hreply := replies_plan "S\n".toList planPrompt
  have h := @generate_exact asciiRuntime request (fun _ => []) (replies "S\n".toList) p planPrompt hprompt hreply.1
    (by rw [hreply.2]; exact hp)
  refine ⟨p, hp, h.mpr fun _ => .inl fun b hb => ?_⟩
  unfold documentBlocks at hb
  rw [hblocks] at hb
  obtain ⟨part, hpart, rfl⟩ := List.mem_map.mp (List.mem_filter.mp hb).1
  rcases List.mem_append.mp hpart with hpart | hpart
  · rcases List.mem_append.mp hpart with hpart | hpart
    · have hfixed : ∀ part ∈ [plannerBlocks.preamble, plannerBlocks.frontmatter],
        ¬ endDocument <:+: rstripNewlines part := by decide
      exact hfixed part hpart
    · rw [mem_bodiesFrom Nat.one_ne_zero hpart]
      decide
  · rw [List.mem_singleton.mp hpart]
    decide

/-- A section that names the closing command in a comment takes the closing line from the document. -/
theorem commented_closer : ∃ p, @planOf asciiRuntime request plannerText = .ok (.ok p) ∧
    ¬ @Lossless asciiRuntime request (fun _ => []) (replies commentedText) p := by
  obtain ⟨planPrompt, p, hprompt, hp, hblocks, hplanned⟩ := planOf_request
  have hreply := replies_plan commentedText planPrompt
  refine ⟨p, hp, ?_⟩
  rintro ⟨hcovers, -, -, hdelivers⟩
  have hclosable := (@delivers_iff asciiRuntime request (fun _ => []) (replies commentedText) p planPrompt hprompt
    hreply.1 (by rw [hreply.2]; exact hp)).mp hdelivers (allOk_replies 1 p.sections)
  obtain ⟨kept, swept, hs, htrim, -⟩ := hcovers.planner
  have hsections : p.sections ≠ [] := by
    rw [hs]
    refine List.append_ne_nil_of_left_ne_nil (fun hk => hplanned ?_) swept
    rw [hk] at htrim
    exact List.forall₂_nil_left_iff.mp htrim
  obtain ⟨body, hbody⟩ :
      ∃ body, body ∈ @bodiesFrom asciiRuntime request (replies commentedText) p 1 p.sections :=
    List.exists_mem_of_ne_nil _ (bodiesFrom_ne_nil hsections)
  have hb := mem_bodiesFrom Nat.one_ne_zero hbody
  rcases hclosable with hnone | ⟨last, hlast, hcloses⟩
  · refine hnone (rstripNewlines body) (List.mem_filter.mpr ⟨List.mem_map_of_mem ?_, ?_⟩) ?_
    · exact List.mem_append_left _ (List.mem_append_right _ hbody)
    · rw [hb]
      decide +kernel
    · rw [hb]
      decide +kernel
  · unfold documentBlocks at hlast
    rw [hblocks, shown_append] at hlast
    have hbib : shown [plannerBlocks.bibliography] = ["B".toList] := by decide
    rw [hbib, List.getLast?_concat] at hlast
    cases hlast
    have hopen : ¬ Closes "B".toList := by
      unfold Closes
      decide
    exact hopen hcloses

end Run
end Danus.WritePaper.Chunked
