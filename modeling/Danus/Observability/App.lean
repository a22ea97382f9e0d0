import Danus.Core.TornLines
import Danus.FactGraph.Fact

/-! The dashboard: it parses a project's stores again, by rules of its own. -/
namespace Danus.Observability
open Python

/-- The kinds of `CHANNELS`. -/
def channelKinds : List PyStr := ["conclusion".toList, "example".toList, "counterexample".toList,
  "proof_attempt".toList, "plan".toList, "direction".toList, "obstacle".toList, "dead_end".toList,
  "verification".toList, "elaboration".toList, "advisor_checkpoint".toList,
  "master_guidance".toList]

/-- What the dashboard reads: the files of `fact_graph/facts` by their stems, and those of
`global_memory` by their kinds, empty where there is none. -/
structure Project where
  facts : List (PyStr × List Nat)
  channel : PyStr → List Nat

/-- What the dashboard raises. -/
inductive AppError where
  | unknownKind (kind : PyStr)
  | notUtf8
  | unhashable
  | unordered
  | recursion
  deriving DecidableEq

/-- `read_text(encoding="utf-8")` -/
def readText (bytes : List Nat) : Except AppError PyStr :=
  match decodeUtf8 bytes with
  | some text => .ok (universalNewlines text)
  | none => .error .notUtf8

section Frontmatter

/-- Where `\s*\n` ends at the front of the text: the longest match first. -/
def blankEnds : PyStr → List PyStr
  | [] => []
  | c :: cs =>
    if isSpace c then blankEnds cs ++ (if c = '\n' then [cs] else []) else []

/-- `\n---\s*\n(.*)$` at the front of the text. -/
def closing (text : PyStr) : Option PyStr :=
  if FactGraph.startsWith "\n---".toList text then (blankEnds (text.drop 4)).head? else none

/-- `(.*?)\n---\s*\n(.*)$` -/
def untilClosing : PyStr → Option (PyStr × PyStr)
  | [] => none
  | c :: cs =>
    match closing (c :: cs) with
    | some body => some ([], body)
    | none => (untilClosing cs).map fun p => (c :: p.1, p.2)

/-- `_FM.match`: the frontmatter and the body. -/
def matchFrontmatter (text : PyStr) : Option (PyStr × PyStr) :=
  if FactGraph.startsWith "---".toList text then (blankEnds (text.drop 3)).findSome? untilClosing
  else none

/-- A value of the frontmatter. -/
inductive Field where
  | text (s : PyStr)
  | list (items : List PyStr)
  deriving DecidableEq

/-- `text.strip("'\"")` -/
def stripQuotes (s : PyStr) : PyStr :=
  let isQuote := fun c => c == '\'' || c == '"'
  ((s.dropWhile isQuote).reverse.dropWhile isQuote).reverse

def readValue (v : PyStr) : Field :=
  if v.head? = some '[' ∧ v.getLast? = some ']' then
    let inner := strip (v.drop 1).dropLast
    .list (((inner.splitOn ',').filter (strip · ≠ [])).map fun x => stripQuotes (strip x))
  else .text v

/-- A line of the frontmatter with a colon. -/
def readLine (line : PyStr) : Option (PyStr × Field) :=
  if ':' ∈ line then
    some (strip (line.takeWhile (· ≠ ':')), readValue (strip ((line.dropWhile (· ≠ ':')).drop 1)))
  else none

/-- `fm`, the last assignment first. -/
def frontmatter (lines : List PyStr) : List (PyStr × Field) := (lines.filterMap readLine).reverse

end Frontmatter

section Sections
variable [FactGraph.Runtime]

/-- `\w` -/
def isWordChar (c : Char) : Bool :=
  c == '_' || if c.toNat < 0x80 then isAlnumAscii c else FactGraph.Runtime.isAlnum c

/-- The group of `^##\s+(\w+)`. -/
def headingWord : PyStr → Option PyStr
  | '#' :: '#' :: c :: cs =>
    let word := ((c :: cs).dropWhile isSpace).takeWhile isWordChar
    if isSpace c ∧ word ≠ [] then some word else none
  | _ => none

/-- The keys of `secs`. -/
inductive Section where
  | statement | proof | intuition
  deriving DecidableEq

def Section.name : Section → PyStr
  | .statement => "statement".toList
  | .proof => "proof".toList
  | .intuition => "intuition".toList

/-- The section that a line starts. -/
def sectionOf (line : PyStr) : Option Section :=
  (headingWord line).bind fun word =>
    [Section.statement, .proof, .intuition].find? fun s => lower word == s.name

/-- `secs` and `cur` -/
structure Reading where
  secs : Section → PyStr
  cur : Option Section

def Reading.line (r : Reading) (line : PyStr) : Reading :=
  match sectionOf line with
  | some s => { r with cur := some s }
  | none =>
    match r.cur with
    | some s => { r with secs := Function.update r.secs s (r.secs s ++ line ++ ['\n']) }
    | none => r

def readSections (body : PyStr) : Section → PyStr :=
  ((splitlines body).foldl Reading.line ⟨fun _ => [], none⟩).secs

/-- What `_parse_fact` returns. -/
structure ParsedFact where
  factId : Field
  problemId : Field
  author : Field
  predecessors : Field
  statement : PyStr
  proof : PyStr
  intuition : PyStr

/-- Whether Python takes the value for true. -/
def Field.isTrue : Field → Bool
  | .text s => s != []
  | .list items => items != []

/-- `_parse_fact` -/
def parseFact (text : PyStr) : ParsedFact :=
  let parts := (matchFrontmatter text).getD ([], text)
  let fm := frontmatter (splitlines parts.1)
  let secs := readSections parts.2
  let predecessors := (fm.lookup "predecessors".toList).getD (.list [])
  { factId := (fm.lookup "fact_id".toList).getD (.text [])
    problemId := (fm.lookup "problem_id".toList).getD (.text [])
    author := (fm.lookup "author".toList).getD (.text [])
    predecessors := if predecessors.isTrue then predecessors else .list []
    statement := strip (secs .statement)
    proof := strip (secs .proof)
    intuition := strip (secs .intuition) }

/-- The files of a directory, sorted by name. -/
def sortedFiles (files : List (PyStr × List Nat)) : List (PyStr × List Nat) :=
  (Json.sortByKey (files.map fun f => (f.1 ++ ".md".toList, f))).map Prod.snd

/-- One turn of `_load_facts`. -/
def loadFact (file : PyStr × List Nat) : Except AppError ParsedFact :=
  (readText file.2).map fun text =>
    let fact := parseFact text
    if fact.factId.isTrue then fact else { fact with factId := .text file.1 }

/-- `_load_facts` -/
def loadFacts (project : Project) : Except AppError (List ParsedFact) :=
  (sortedFiles project.facts).mapM loadFact

end Sections

section Graph

/-- `d[key] = value` -/
def setEntry {α : Type} (d : List (PyStr × α)) (item : PyStr × α) : List (PyStr × α) :=
  if d.any (·.1 == item.1) then d.map fun kv => if kv.1 == item.1 then item else kv
  else d ++ [item]

/-- `deps.get(fid, [])` -/
def predecessorsIn (deps : List (PyStr × List PyStr)) (fid : PyStr) : List PyStr :=
  (deps.lookup fid).getD []

/-- `get` of `_depths`, with the memo that it fills. The number bounds the calls that the interpreter's
stack still holds. -/
def getDepth (deps : List (PyStr × List PyStr)) :
    Nat → PyStr → List PyStr → List (PyStr × Nat) → Except AppError (Nat × List (PyStr × Nat))
  | 0, _, _, _ => .error .recursion
  | n + 1, fid, stack, depth =>
    match depth.lookup fid with
    | some d => .ok (d, depth)
    | none =>
      if fid ∈ stack then .ok (0, depth)
      else if predecessorsIn deps fid = [] then .ok (0, setEntry depth (fid, 0))
      else
        ((predecessorsIn deps fid).foldlM (fun acc p =>
          (getDepth deps n p (fid :: stack) acc.2).map fun r => (max acc.1 r.1, r.2)) (0, depth)).map
            fun acc => (1 + acc.1, setEntry acc.2 (fid, 1 + acc.1))

/-- `_depths` -/
def depths (callDepth : Nat) (deps : List (PyStr × List PyStr)) :
    Except AppError (List (PyStr × Nat)) :=
  deps.foldlM (fun depth kv => (getDepth deps callDepth kv.1 [] depth).map Prod.snd) []

structure Node where
  id : PyStr
  author : Field
  problemId : Field
  statement : PyStr
  proof : PyStr
  intuition : PyStr
  predecessors : List PyStr
  depth : Nat
  deriving DecidableEq

structure FactGraphResp where
  nodes : List Node
  edges : List (PyStr × PyStr)
  maxDepth : Nat

/-- The elements of a list, or the characters of a text. -/
def Field.elements : Field → List PyStr
  | .text s => s.map ([·])
  | .list items => items

/-- The hash of a value: a list has none. -/
def Field.hash : Field → Except AppError PyStr
  | .text s => .ok s
  | .list _ => .error .unhashable

variable [FactGraph.Runtime]

/-- `build_factgraph` -/
def buildFactgraph (callDepth : Nat) (project : Project) : Except AppError FactGraphResp := do
  let parsed ← loadFacts project
  let ids ← parsed.mapM fun f => f.factId.hash
  let facts := ids.zip parsed
  let deps := (facts.map fun f => (f.1, f.2.predecessors.elements.filter (· ∈ ids))).foldl setEntry []
  let depth ← depths callDepth deps
  return {
    nodes := facts.map fun f => {
      id := f.1
      author := f.2.author
      problemId := f.2.problemId
      statement := f.2.statement
      proof := f.2.proof
      intuition := f.2.intuition
      predecessors := predecessorsIn deps f.1
      depth := (depth.lookup f.1).getD 0 }
    edges := facts.flatMap fun f => (predecessorsIn deps f.1).map fun p => (p, f.1)
    maxDepth := (depth.map Prod.snd).foldl max 0 }

end Graph

section Channels

/-- `_load_jsonl` -/
def loadJsonl (bytes : List Nat) : Except AppError (List Json) :=
  (readText bytes).map fun text => (splitlines text).filterMap Core.jsonlPayload

/-- `e.get("timestamp_utc", "")`; keys that are not all strings are not modelled. -/
def timestamp (entry : Json) : Except AppError PyStr :=
  match entry.get? "timestamp_utc".toList with
  | none => .ok []
  | some (.str s) => .ok s
  | some _ => .error .unordered

/-- `entries.sort(key=…, reverse=True)`, which keeps the order of equal keys. -/
def sortEntries (entries : List Json) : Except AppError (List Json) :=
  (entries.mapM timestamp).map fun keys =>
    ((keys.zip entries).insertionSort fun a b => Json.strLe b.1 a.1 = true).map Prod.snd

/-- The entries of `build_channel`. -/
def buildChannel (kind : PyStr) (project : Project) : Except AppError (List Json) :=
  if kind ∉ channelKinds then .error (.unknownKind kind)
  else (loadJsonl (project.channel kind)).bind sortEntries

end Channels
end Danus.Observability
