import Danus.Lib.JsonRead
import Danus.Lib.Lines

/-! The gated literature search: arXiv ids and their months, the gate's configuration, and what of a
provider's response reaches the caller. -/
namespace Danus.Integrations
open Python

/-- What the interpreter's character tables and `str` say. -/
class Tables where
  /-- The digit that `\d` matches and `int` reads. -/
  digit : Char → Option Nat
  /-- `str.lower` -/
  lower : PyStr → PyStr
  /-- `str(value)` of a JSON value that is no string. -/
  valueText : Json → PyStr
  /-- `repr(text)` -/
  reprText : PyStr → PyStr
  digit_ascii : ∀ c : Char, c.toNat < 0x80 →
    digit c = if 48 ≤ c.toNat ∧ c.toNat ≤ 57 then some (c.toNat - 48) else none
  lower_ascii : ∀ s : PyStr, (∀ c ∈ s, c.toNat < 0x80 ∨ isSpace c = true) →
    lower s = s.map Char.toLower

variable [Tables]

/-- `\d` -/
def isDecimal (c : Char) : Bool := (Tables.digit c).isSome

/-- `int(text)` of decimal digits. -/
def decimalValue (cs : PyStr) : Nat := cs.foldl (fun n c => n * 10 + (Tables.digit c).getD 0) 0

/-- `_month_index` -/
def monthIndex (yy mm : Nat) : Option Nat :=
  if 1 ≤ mm ∧ mm ≤ 12 then
    some ((if 91 ≤ yy then 1900 + yy else 2000 + yy) * 12 + (mm - 1))
  else none

/-- `[a-z]` when case is ignored, with the four characters outside ASCII that fold into it. -/
def isLetter (c : Char) : Bool :=
  ('a' ≤ c && c ≤ 'z') || ('A' ≤ c && c ≤ 'Z') ||
    c.toNat == 0x130 || c.toNat == 0x131 || c.toNat == 0x17f || c.toNat == 0x212a

/-- One letter when case is ignored; the dotless and the dotted capital `i` count as `i`. -/
def sameLetter (l c : Char) : Bool :=
  c == l || c.toLower == l || (l == 'i' && (c.toNat == 0x130 || c.toNat == 0x131))

/-- What follows a prefix of these letters, in any case. -/
def dropLetters : PyStr → PyStr → Option PyStr
  | [], s => some s
  | _, [] => none
  | l :: ls, c :: cs => if sameLetter l c then dropLetters ls cs else none

/-- `^(?:arxiv:)?\s*` when case is ignored. -/
def dropArxiv (s : PyStr) : PyStr := ((dropLetters "arxiv:".toList s).getD s).dropWhile isSpace

/-- `(?:v\d+)?\s*$` when case is ignored. -/
def versionEnds (s : PyStr) : Bool :=
  match s with
  | c :: cs =>
    if sameLetter 'v' c then
      (cs.span isDecimal).1 ≠ [] && (cs.span isDecimal).2.all isSpace
    else s.all isSpace
  | [] => true

/-- `_RE_NEW`: the year and the month of `YYMM.NNNNN[vN]`. -/
def matchNew (s : PyStr) : Option (Nat × Nat) :=
  let date := (dropArxiv s).span isDecimal
  match date.2 with
  | '.' :: rest =>
    let number := rest.span isDecimal
    if date.1.length = 4 ∧ (number.1.length = 4 ∨ number.1.length = 5) ∧ versionEnds number.2 then
      some (decimalValue (date.1.take 2), decimalValue (date.1.drop 2))
    else none
  | _ => none

/-- `(?:\.[a-z]{2})?/` when case is ignored. -/
def dropSubject : PyStr → Option PyStr
  | '/' :: rest => some rest
  | '.' :: a :: b :: '/' :: rest => if isLetter a && isLetter b then some rest else none
  | _ => none

/-- `_RE_OLD`: the year and the month of `archive[.SUBJ]/YYMMNNN[vN]`. -/
def matchOld (s : PyStr) : Option (Nat × Nat) :=
  let archive := (dropArxiv s).span fun c => isLetter c || c == '-'
  if archive.1 = [] then none
  else
    match dropSubject archive.2 with
    | none => none
    | some rest =>
      let number := rest.span isDecimal
      if number.1.length = 7 ∧ versionEnds number.2 then
        some (decimalValue (number.1.take 2), decimalValue ((number.1.drop 2).take 2))
      else none

/-- `arxiv_month` -/
def arxivMonth (arxivId : PyStr) : Option Nat :=
  let s := strip arxivId
  if s = [] then none
  else
    match matchNew s with
    | some (yy, mm) => monthIndex yy mm
    | none => (matchOld s).bind fun p => monthIndex p.1 p.2

/-- `parse_cutoff` -/
def parseCutoff (raw : PyStr) : Option Nat :=
  let s := strip raw
  let first := s.span isDecimal
  match first.2 with
  | [] =>
    if first.1.length = 6 then
      let month := decimalValue (first.1.drop 4)
      if 1 ≤ month ∧ month ≤ 12 then some (decimalValue (first.1.take 4) * 12 + (month - 1)) else none
    else if first.1.length = 4 then
      monthIndex (decimalValue (first.1.take 2)) (decimalValue (first.1.drop 2))
    else none
  | c :: rest =>
    let month := decimalValue rest
    if first.1.length = 4 ∧ (c = '-' ∨ c = '/') ∧ rest.all isDecimal ∧
        (rest.length = 1 ∨ rest.length = 2) ∧ 1 ≤ month ∧ month ≤ 12 then
      some (decimalValue first.1 * 12 + (month - 1))
    else none

/-- `re.sub(r"^arxiv:\s*", "", s)` -/
def stripArxiv (s : PyStr) : PyStr :=
  if "arxiv:".toList <+: s then (s.drop 6).dropWhile isSpace else s

/-- `re.sub(r"v\d+$", "", s)` of a text that does not end in a newline. -/
def stripVersion (s : PyStr) : PyStr :=
  let tail := s.reverse.span isDecimal
  match tail.2 with
  | 'v' :: rest => if tail.1 = [] then s else rest.reverse
  | _ => s

/-- `_normalize_id` -/
def normalizeId (arxivId : PyStr) : PyStr :=
  stripVersion (stripArxiv (Tables.lower (strip arxivId)))

/-- `re.split(r"[,\s]+", text)`, the pieces that are not blank. -/
def sourcePieces (text : PyStr) : List PyStr :=
  (text.splitOnP fun c => c == ',' || isSpace c).filter (· ≠ [])

/-- A resolved gate configuration. -/
structure GateConfig where
  mode : PyStr
  cutoffRaw : PyStr
  sourceIds : List PyStr

namespace GateConfig

/-- The configuration of these settings, each one an argument or from the environment. -/
def resolve (mode cutoff sources : PyStr) : GateConfig where
  mode :=
    if Tables.lower (strip mode) = [] then
      if strip cutoff = [] then "open".toList else "off".toList
    else Tables.lower (strip mode)
  cutoffRaw := strip cutoff
  sourceIds := (sourcePieces sources).map normalizeId

variable (cfg : GateConfig)

def cutoff : Option Nat := parseCutoff cfg.cutoffRaw

def isEval : Bool := cfg.cutoffRaw ≠ []

def validModes : List PyStr := ["open".toList, "strict".toList, "dated".toList, "off".toList]

/-- `validate`: why the configuration is unusable. -/
def validate : Option PyStr :=
  if cfg.mode ∉ validModes then
    some ("invalid DANUS_RETRIEVAL_MODE ".toList ++ Tables.reprText cfg.mode ++
      " (expected one of ('open', 'strict', 'dated', 'off'))".toList)
  else if cfg.isEval ∧ cfg.cutoff = none then
    some ("unparseable DANUS_EVAL_CUTOFF ".toList ++ Tables.reprText cfg.cutoffRaw ++
      " (expected YYMM / YYYY-MM)".toList)
  else if cfg.isEval ∧ cfg.mode = "open".toList then
    some "DANUS_RETRIEVAL_MODE=open is refused while DANUS_EVAL_CUTOFF is set".toList
  else if cfg.mode = "dated".toList ∧ cfg.cutoff = none then
    some "mode=dated requires DANUS_EVAL_CUTOFF".toList
  else none

end GateConfig

/-- The further fields of a result from the journals. -/
structure Provenance where
  doi : PyStr
  journal : PyStr
  year : PyStr
  authors : PyStr
  deriving DecidableEq

structure Result where
  title : PyStr
  theorem_ : PyStr
  arxivId : PyStr
  theoremId : PyStr
  provenance : Option Provenance
  sourceType : PyStr
  deriving DecidableEq

def maxResults : Nat := 200

def maxFieldChars : Nat := 262144

/-- `str(value)` -/
def strOf : Json → PyStr
  | .str s => s
  | v => Tables.valueText v

/-- `bool(value)` -/
def truthy : Json → Bool
  | .null | .bool false => false
  | .int i => i != 0
  | .float x => !((x.text.takeWhile fun c => c != 'e' && c != 'E').all fun c =>
      c == '0' || c == '.' || c == '-')
  | .str s => s ≠ []
  | .arr items => items ≠ []
  | .obj items => items ≠ []
  | .bool true => true

/-- A text within the cap on its characters. -/
def capped (message text : PyStr) : Except PyStr PyStr :=
  if maxFieldChars < text.length then .error message else .ok text

/-- `field(name)` of the arXiv index's items. -/
def arxivField (item : List (PyStr × Json)) (name : PyStr) : Except PyStr PyStr :=
  capped ("arXiv result field ".toList ++ name ++ " exceeds its character cap".toList)
    (match item.lookup name with
      | none => []
      | some v => strOf v)

/-- `_normalize_arxiv_item` -/
def normalizeArxivItem (item : List (PyStr × Json)) : Except PyStr Result := do
  let title ← arxivField item "title".toList
  let theorem_ ← arxivField item "theorem".toList
  let arxivId ← arxivField item "arxiv_id".toList
  let theoremId ← arxivField item "theorem_id".toList
  return ⟨title, theorem_, arxivId, theoremId, none, "arxiv".toList⟩

/-- `value(raw, name=name)` of the journals' items: `str(raw or "")`. -/
def matlasValue (raw : Option Json) (name : PyStr) : Except PyStr PyStr :=
  capped ("Matlas result field ".toList ++ name ++ " exceeds its character cap".toList)
    (match raw with
      | none => []
      | some v => if truthy v then strOf v else [])

/-- `_normalize_matlas_ai_item` -/
def normalizeMatlasItem (item : List (PyStr × Json)) : Except PyStr Result := do
  let title ← matlasValue (item.lookup "title".toList) "title".toList
  let theorem_ ← matlasValue (item.lookup "statement".toList) "statement".toList
  let named := (item.lookup "entity_name".toList).filter truthy
  let theoremId ← matlasValue (named.or (item.lookup "candidate_id".toList)) "theorem_id".toList
  let doi ← matlasValue (item.lookup "doi".toList) "doi".toList
  let journal ← matlasValue (item.lookup "journal".toList) "journal".toList
  let year ← matlasValue (item.lookup "year".toList) "year".toList
  let authors ← matlasValue (item.lookup "authors".toList) "authors".toList
  let type ← matlasValue (item.lookup "type".toList) "type".toList
  return ⟨title, theorem_, [], theoremId, some ⟨doi, journal, year, authors⟩,
    if type = [] then "matlas".toList else type⟩

/-- What `_post_json` gives: the parsed body, or why there is none. -/
abbrev Response : Type := Except PyStr Json

/-- The first `_MAX_RESULTS` items of a response that are objects, normalised. -/
def fetch (normalizeItem : List (PyStr × Json) → Except PyStr Result) (notList : PyStr)
    (response : Response) : Except PyStr (List Result) :=
  match response with
  | .error e => .error e
  | .ok (.arr items) => ((items.take maxResults).filterMap fun v =>
      match v with
      | .obj fields => some fields
      | _ => none).mapM normalizeItem
  | .ok _ => .error notList

/-- `type(data).__name__` of a JSON value. -/
def typeName : Json → PyStr
  | .null => "NoneType".toList
  | .bool _ => "bool".toList
  | .int _ => "int".toList
  | .float _ => "float".toList
  | .str _ => "str".toList
  | .arr _ => "list".toList
  | .obj _ => "dict".toList

def responseType (response : Response) : PyStr :=
  match response with
  | .error _ => []
  | .ok v => typeName v

/-- `_fetch_arxiv_index` -/
def fetchArxivIndex (response : Response) : Except PyStr (List Result) :=
  fetch normalizeArxivItem
    ("theorem endpoint must return a JSON list, got ".toList ++ responseType response) response

/-- `_fetch_matlas_ai` -/
def fetchMatlasAi (response : Response) : Except PyStr (List Result) :=
  fetch normalizeMatlasItem
    ("matlas.ai must return a JSON list, got ".toList ++ responseType response) response

inductive DropReason where
  | sourcePaper | undatableId | atOrAfterCutoff | undatableYear
  deriving DecidableEq, Repr

/-- `_gate_arxiv` of one item. -/
def arxivReason (cfg : GateConfig) (cutoff : Nat) (item : Result) : Option DropReason :=
  let norm := normalizeId item.arxivId
  if norm ≠ [] ∧ norm ∈ cfg.sourceIds then some .sourcePaper
  else
    match arxivMonth item.arxivId with
    | none => some .undatableId
    | some month => if cutoff ≤ month then some .atOrAfterCutoff else none

/-- `re.search(r"\d{4}", y)` -/
def firstYear : PyStr → Option Nat
  | a :: b :: c :: d :: rest =>
    if isDecimal a && isDecimal b && isDecimal c && isDecimal d then some (decimalValue [a, b, c, d])
    else firstYear (b :: c :: d :: rest)
  | _ => none

/-- `_gate_matlas_ai` of one item. -/
def matlasReason (cutoff : Nat) (item : Result) : Option DropReason :=
  match firstYear (strip ((item.provenance.map Provenance.year).getD [])) with
  | some year => if cutoff / 12 ≤ year then some .atOrAfterCutoff else none
  | none =>
    if Tables.lower (strip item.sourceType) = "book".toList then none else some .undatableYear

/-- The items that a gate keeps, and why it drops the others. -/
def gate (reason : Result → Option DropReason) (raw : List Result) : List Result × List DropReason :=
  (raw.filter fun item => (reason item).isNone, raw.filterMap reason)

/-- What `search` returns, without the digest and the telemetry. -/
structure Envelope where
  results : List Result
  mode : PyStr
  error : Option PyStr
  gateFatal : Bool
  droppedByGate : Nat
  gateViolations : Nat
  recallSaturated : Bool
  deriving DecidableEq

/-- An envelope without results. -/
def refusal (mode error : PyStr) (fatal : Bool) : Envelope :=
  ⟨[], mode, some error, fatal, 0, 0, false⟩

/-- The number of results to return: `num_results` where `int` reads one that is positive. -/
def wanted (numResults : Option Int) : Nat :=
  min maxResults (if 0 < numResults.getD 10 then (numResults.getD 10).toNat else 10)

/-- `search`, when the provider answers the one request in this way. -/
def search (cfg : GateConfig) (query : PyStr) (numResults : Option Int) (response : Response) :
    Envelope :=
  match cfg.validate with
  | some fatal => refusal cfg.mode ("gate refused: ".toList ++ fatal) true
  | none =>
    if strip query = [] then refusal cfg.mode "empty query".toList false
    else if cfg.mode = "off".toList then
      refusal "off".toList ("retrieval is disabled for this run (mode=off); ".toList ++
        "answer from the problem statement alone".toList) false
    else
      let n := wanted numResults
      let raw := if cfg.mode = "strict".toList then fetchMatlasAi response else fetchArxivIndex response
      match raw with
      | .error e => refusal cfg.mode e false
      | .ok raw =>
        let gated :=
          if cfg.mode = "open".toList then (raw, [])
          else if cfg.mode = "strict".toList then
            match cfg.cutoff with
            | none => (raw, [])
            | some cutoff => gate (matlasReason cutoff) raw
          else
            match cfg.cutoff with
            | none => (raw, [])
            | some cutoff => gate (arxivReason cfg cutoff) raw
        { results := gated.1.take n
          mode := cfg.mode
          error := none
          gateFatal := false
          droppedByGate := gated.2.length
          gateViolations := (gated.2.filter fun reason =>
            reason = .sourcePaper ∨ reason = .atOrAfterCutoff).length
          recallSaturated := gated.1.length < n && cfg.mode ≠ "open".toList }

end Danus.Integrations
