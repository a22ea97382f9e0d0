import Danus.Lib.Dict
import Danus.Lib.JsonRead
import Danus.Lib.Lines
import Danus.Lib.Sha256
import Danus.Lib.Sorting

/-! A fact, its content address, and its file: markdown under a line-oriented frontmatter. -/
namespace Danus.FactGraph
open Python

/-- What the interpreter and the package bring along. -/
class Runtime where
  /-- `str(value)` of a JSON value that is no string. -/
  valueText : Json → PyStr
  /-- `repr(text)` -/
  reprText : PyStr → PyStr
  /-- `character.isalnum()` -/
  isAlnum : Char → Bool
  /-- The packaged glossary of universal notation. -/
  globalGlossary : List (PyStr × PyStr)
  globalGlossary_keys : (globalGlossary.map Prod.fst).Nodup

/-- What the graph raises. -/
inductive GraphError where
  | value (message : PyStr)
  | runtime (message : PyStr)
  | outcomeUnknown (message : PyStr)
  deriving DecidableEq

/-- A cleaned external reference: a JSON object as a Python dict holds it. -/
structure ExternalRef where
  items : List (PyStr × Json)
  distinct : (Json.obj items).distinctKeys = true

/-- `EXTERNAL_REF_KEYS` -/
def externalRefKeys : List PyStr := ["key".toList, "authors".toList, "title".toList, "arxiv".toList,
  "year".toList, "venue".toList, "doi".toList, "cited_for".toList]

structure Fact where
  factId : PyStr
  problemId : PyStr
  author : PyStr
  predecessors : List PyStr
  statement : PyStr
  proof : PyStr
  glossaryIntroduces : List (PyStr × PyStr)
  intuition : PyStr
  factIdentity : PyStr
  externalRefs : List ExternalRef
  glossary_keys : (glossaryIntroduces.map Prod.fst).Nodup

/-- `_SAFE_FACT_ID_RE.fullmatch` -/
def isSafeFactId : PyStr → Bool
  | [] => false
  | c :: cs => isAlnumAscii c && cs.all fun d => isAlnumAscii d || d == '.' || d == '_' || d == '-'

/-- The canonical content of `compute_fact_id`. -/
def factBody (problemId : PyStr) (predecessors : List PyStr) (glossary : List (PyStr × PyStr))
    (statement proof : PyStr) : Json :=
  .obj [("problem_id".toList, .str problemId),
    ("predecessors".toList, .arr ((sortStr predecessors).map .str)),
    ("glossary_introduces".toList, Json.ofDict (Json.sortByKey glossary)),
    ("statement".toList, .str (normalize statement)),
    ("proof".toList, .str (normalize proof))]

/-- `compute_fact_id` -/
@[irreducible] def computeFactId (problemId : PyStr) (predecessors : List PyStr)
    (glossary : List (PyStr × PyStr)) (statement proof : PyStr) : PyStr :=
  (Sha256.hexdigest (Json.preimage (Json.spaced false true)
    (factBody problemId predecessors glossary statement proof))).take 16

/-- `line.strip().lower()` -/
def heading (line : PyStr) : PyStr := lower (strip line)

/-- The lines after the first one with this heading. -/
def afterHeading (title : PyStr) (lines : List PyStr) : List PyStr :=
  (lines.dropWhile fun line => heading line != title).drop 1

/-- The guards of `_add_unlocked` that read no file. -/
def checkFields (problemId author statement intuition : PyStr) (predecessors : List PyStr) :
    Except GraphError Unit :=
  if problemId = [] ∨ problemId ≠ strip problemId ∨ problemId.any isLineBreak then
    .error (.value "problem_id must be a non-empty single-line string".toList)
  else if author.any isLineBreak then
    .error (.value "author must be a single-line string".toList)
  else if (splitlines statement).any fun line => heading line == "## proof".toList then
    .error (.value "statement may not contain the reserved '## proof' boundary".toList)
  else if (splitlines intuition).any fun line => heading line == "## intuition".toList then
    .error (.value "intuition may not contain the reserved '## intuition' boundary".toList)
  else if ¬ predecessors.Nodup then
    .error (.value "duplicate predecessor fact_id".toList)
  else .ok ()

/-- `statement_of` -/
def statementOf (text : PyStr) : PyStr :=
  let body := (afterHeading "## statement".toList (splitlines text)).takeWhile fun line =>
    heading line != "## proof".toList
  strip (joinWith [' '] ((body.map strip).filter (· ≠ [])))

/-- The text after the first colon, stripped. -/
def afterColon (line : PyStr) : PyStr := strip ((line.dropWhile (· ≠ ':')).drop 1)

def startsWith (p : PyStr) (s : PyStr) : Bool := p.isPrefixOf s

/-- Whether the frontmatter says that there is an intuition section; the first line is no end of it. -/
def intuitionFlag : Nat → List PyStr → Option Bool
  | _, [] => none
  | index, line :: lines =>
    if 0 < index ∧ strip line = "---".toList then none
    else if startsWith "has_intuition:".toList line then some (lower (afterColon line) == "true".toList)
    else intuitionFlag (index + 1) lines

/-- The lines before the last one with this heading. -/
def beforeLast (title : PyStr) (lines : List PyStr) : List PyStr :=
  ((lines.reverse.dropWhile fun line => heading line != title).drop 1).reverse

/-- `_proof_of` -/
def proofOf (text : PyStr) : PyStr :=
  let lines := splitlines text
  let out := afterHeading "## proof".toList lines
  let title := "## intuition".toList
  let body := if out.any (heading · == title) then
      match intuitionFlag 0 lines with
      | some true => beforeLast title out
      | some false => out
      | none => out.takeWhile fun line => heading line != title
    else out
  strip (joinWith ['\n'] body)

/-- `json.dumps(dict(sorted(terms.items())), ensure_ascii=True)` -/
def glossaryText (terms : List (PyStr × PyStr)) : PyStr :=
  (Json.ofDict (Json.sortByKey terms)).dumps (Json.spaced true false)

/-- The `external_refs` as JSON. -/
def refsJson (refs : List ExternalRef) : Json := .arr (refs.map fun r => .obj r.items)

/-- The frontmatter lines of `serialize_fact`. -/
def frontmatterLines (fact : Fact) : List PyStr :=
  ["---".toList,
    "fact_id: ".toList ++ fact.factId,
    "problem_id: ".toList ++ fact.problemId,
    "author: ".toList ++ fact.author,
    "predecessors: [".toList ++ joinWith ", ".toList fact.predecessors ++ "]".toList,
    "has_intuition: ".toList ++ (if strip fact.intuition ≠ [] then "true".toList else "false".toList),
    "glossary_introduces: ".toList ++ glossaryText fact.glossaryIntroduces] ++
  (if fact.factIdentity ≠ [] then ["fact_identity: ".toList ++ fact.factIdentity] else []) ++
  ["external_refs: ".toList ++ (refsJson fact.externalRefs).dumps (Json.spaced true false), "---".toList]

/-- The body of `serialize_fact`. -/
def bodyParts (fact : Fact) : List PyStr :=
  [[], "## statement".toList, strip fact.statement, [], "## proof".toList, strip fact.proof] ++
  (if strip fact.intuition ≠ [] then [[], "## intuition".toList, strip fact.intuition] else [])

/-- `serialize_fact` -/
def serializeFact (fact : Fact) : PyStr :=
  joinWith ['\n'] (frontmatterLines fact ++ bodyParts fact ++ [[]])

/-- What `parse_frontmatter` returns. -/
structure Frontmatter where
  factId : PyStr := []
  problemId : PyStr := []
  predecessors : List PyStr := []
  glossaryIntroduces : List (PyStr × PyStr) := []
  factIdentity : Option PyStr := none
  externalRefs : Json := .arr []
  /-- The terms and definitions that were read are texts that UTF-8 can write. -/
  glossaryEncodes : Bool := true

/-- The items of `_PRED_RE`'s group on a stripped line. -/
def predecessorsOf (line : PyStr) : Option (List PyStr) :=
  if startsWith "predecessors:".toList line then
    match lstrip (line.drop "predecessors:".length) with
    | '[' :: rest =>
      if rest.getLast? = some ']' then
        some (((rest.dropLast.splitOn ',').map strip).filter (· ≠ []))
      else none
    | _ => none
  else none

/-- A payload with this character in place of each escape of an unpaired surrogate; the number bounds the steps. -/
def pairEscapes (c : Char) : Nat → PyStr → PyStr
  | 0, _ => []
  | n + 1, '\\' :: 'u' :: cs =>
    match Json.unescapeUnit cs, Json.hexValue cs with
    | some p, _ => '\\' :: 'u' :: cs.take (cs.length - p.2.length) ++ pairEscapes c n p.2
    | none, some p => c :: pairEscapes c n p.2
    | none, none => '\\' :: 'u' :: pairEscapes c n cs
  | n + 1, '\\' :: d :: cs => '\\' :: d :: pairEscapes c n cs
  | n + 1, d :: cs => d :: pairEscapes c n cs
  | _, [] => []

/-- The keys of a payload and its values that are texts, with such a character. -/
def pairedTexts (payload : PyStr) (c : Char) : Option (List (PyStr × PyStr)) :=
  match Json.parse (pairEscapes c payload.length payload) with
  | some (.obj items) => some (items.map fun kv => (kv.1, match kv.2 with | .str s => s | _ => []))
  | _ => none

/-- Whether `json.loads` reads an object with an unpaired surrogate in a key or a text, which is no text here: the
character in its place makes a difference. -/
def readsSurrogate (payload : PyStr) : Bool := pairedTexts payload 'a' != pairedTexts payload 'b'

/-- A line of a glossary in the older block form, `_GLOSS_LINE_RE`. -/
def glossaryLine : PyStr → Option (PyStr × PyStr)
  | a :: b :: rest =>
    let key := rest.takeWhile (· ≠ ':')
    let value := rest.dropWhile (· ≠ ':')
    if isSpace a ∧ isSpace b ∧ key ≠ [] ∧ value ≠ [] then some (strip key, strip (value.drop 1))
    else none
  | _ => none

/-- `terms[key] = value` -/
def setTerm (terms : List (PyStr × PyStr)) (item : PyStr × PyStr) : List (PyStr × PyStr) :=
  if terms.any (·.1 == item.1) then terms.map fun kv => if kv.1 == item.1 then item else kv
  else terms ++ [item]

example : readsSurrogate "\x7b\"k\": \"\\ud83d\\ude00\"\x7d".toList = false ∧
    readsSurrogate "\x7b\"k\": \"\\ud800\"\x7d".toList = true := by decide +kernel

section Parser
variable [Runtime]

/-- `str(value)` -/
def strOf : Json → PyStr
  | .str s => s
  | v => Runtime.valueText v

/-- What `parse_frontmatter` does with one line; the flag says whether a glossary block is open. -/
def parseLine (st : Frontmatter × Bool) (line : PyStr) : Frontmatter × Bool :=
  let stripped := strip line
  if startsWith "fact_id:".toList line then ({ st.1 with factId := afterColon line }, st.2)
  else if startsWith "problem_id:".toList line then ({ st.1 with problemId := afterColon line }, st.2)
  else
    match predecessorsOf stripped with
    | some ids => ({ st.1 with predecessors := ids }, false)
    | none =>
      if startsWith "glossary_introduces:".toList stripped then
        let payload := strip (stripped.drop "glossary_introduces:".length)
        match Json.parse payload with
        | some (.obj items) =>
          ({ st.1 with
            glossaryIntroduces := items.map fun kv => (kv.1, strOf kv.2)
            glossaryEncodes := true }, false)
        | _ =>
          if readsSurrogate payload then ({ st.1 with glossaryEncodes := false }, false)
          else (st.1, payload.isEmpty)
      else if startsWith "external_refs:".toList stripped then
        let payload := strip (stripped.drop "external_refs:".length)
        ({ st.1 with externalRefs := (Json.parse payload).getD (.arr []) }, false)
      else if startsWith "fact_identity:".toList line then
        ({ st.1 with factIdentity := some (afterColon line) }, false)
      else if st.2 then
        match glossaryLine line with
        | some term => ({ st.1 with glossaryIntroduces := setTerm st.1.glossaryIntroduces term }, true)
        | none => (st.1, false)
      else st

/-- The lines of the frontmatter, up to its end; the first line is no end of it. -/
def frontmatterOf (lines : List PyStr) : List PyStr :=
  lines.take 1 ++ (lines.drop 1).takeWhile fun line => strip line ≠ "---".toList

/-- `parse_frontmatter` -/
def parseFrontmatter (text : PyStr) : Frontmatter :=
  ((frontmatterOf (splitlines text)).foldl parseLine ({}, false)).1

/-- `_validate_fact_integrity`; the flag says whether the revoked store has the id. -/
def validateFactIntegrity (revoked : Bool) (factId raw : PyStr) (fm : Frontmatter) :
    Except GraphError Unit :=
  let recorded := fm.factId
  let expected := computeFactId fm.problemId fm.predecessors fm.glossaryIntroduces (statementOf raw)
    (proofOf raw)
  if revoked then
    .error (.value ("fact_integrity_error: ".toList ++ factId ++
      " exists in both active and revoked stores".toList))
  else if recorded ≠ [] ∧ recorded ≠ factId then
    .error (.value ("fact_integrity_error: filename ".toList ++ factId ++ " != frontmatter ".toList ++
      recorded))
  -- imported semantic ids predate content addressing
  else if !isHexOf 16 factId then .ok ()
  else if recorded ≠ factId ∨ fm.problemId = [] then
    .error (.value ("fact_integrity_error: incomplete frontmatter for ".toList ++ factId))
  else if fm.factIdentity.any fun identity => !isHexOf 64 identity then
    .error (.value ("fact_integrity_error: invalid full fact identity for ".toList ++ factId))
  else if expected ≠ factId then
    .error (.value ("fact_integrity_error: content hash ".toList ++ expected ++ " != fact_id ".toList ++
      factId))
  else .ok ()

end Parser
end Danus.FactGraph
