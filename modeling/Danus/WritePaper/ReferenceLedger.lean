import Danus.FactGraph.Fact
import Danus.Integrations.GatedSearch
import Danus.Lib.Entries
import Danus.Lib.Records

/-! `REFERENCE_LEDGER.md`: its rows, and what the verifier's verdicts write into them. -/
namespace Danus.WritePaper.References
open Python Entries
open Danus.FactGraph (Runtime strOf)
open Danus.Integrations (truthy)

/-- The lines of a row: fields with their values, and other lines under `_raw`. -/
abbrev Body : Type := List (PyStr × PyStr)

/-- A row under its key. -/
abbrev Section : Type := PyStr × Body

def raw : PyStr := "_raw".toList

/-- What follows `## `; such a line does not start with `###`. -/
def ledgerHead : PyStr → Option PyStr
  | '#' :: '#' :: ' ' :: rest => some rest
  | _ => none

section Fields
variable [Runtime]

/-- `[\w-]` -/
def isNameChar (c : Char) : Bool :=
  isAlnumAscii c || c == '_' || c == '-' || (0x80 ≤ c.toNat && Runtime.isAlnum c)

/-- `[A-Za-z_]` -/
def isNameStart (c : Char) : Bool := ('a' ≤ c && c ≤ 'z') || ('A' ≤ c && c ≤ 'Z') || c == '_'

/-- `_LEDGER_FIELD_RE.match(line)` -/
def ledgerField : PyStr → Option (PyStr × PyStr)
  | '-' :: rest =>
    let text := lstrip rest
    let name := text.takeWhile isNameChar
    match text.dropWhile isNameChar with
    | ':' :: value =>
      if rest.head?.any isSpace ∧ name.head?.any isNameStart then some (name, lstrip value) else none
    | _ => none
  | _ => none

/-- What a line of a row becomes. -/
def itemOf (line : PyStr) : PyStr × PyStr := (ledgerField line).getD (raw, line)

/-- The lines up to the next heading, and the rows after it; a heading `## ` without more raises. -/
def sectionsFrom : List PyStr → Option (Body × List Section)
  | [] => some ([], [])
  | line :: lines => (sectionsFrom lines).bind fun p =>
    match ledgerHead line with
    | none => some (itemOf line :: p.1, p.2)
    | some [] => none
    | some (c :: rest) => some ([], (strip (c :: rest), p.1) :: p.2)

def isDelta (key : PyStr) : Bool := "verifier delta".toList.isPrefixOf (lower key)

/-- `_parse_ledger_sections`; nothing where it raises. -/
def parseLedgerSections (text : PyStr) : Option (List PyStr × List Section) :=
  let lines := splitlines text
  (sectionsFrom (lines.dropWhile fun line => (ledgerHead line).isNone)).map fun p =>
    (lines.takeWhile fun line => (ledgerHead line).isNone, p.2.filter fun s => !isDelta s.1)

/-- `_VALID_VERDICTS` -/
inductive Ruling where
  | verified | corrected | rejected | unverifiable | retargetInternal
  deriving DecidableEq

def Ruling.text : Ruling → PyStr
  | .verified => "verified".toList
  | .corrected => "corrected".toList
  | .rejected => "rejected".toList
  | .unverifiable => "unverifiable".toList
  | .retargetInternal => "retarget-internal".toList

/-- An object that `_norm_verdict` lets through. -/
structure Verdict where
  obj : List (PyStr × Json)
  key : PyStr
  ruling : Ruling
  key_eq : obj.lookup "key".toList = some (.str key)
  ruling_eq : obj.lookup "verdict".toList = some (.str ruling.text)

/-- `(v.get(name) or "").strip()`; nothing where it raises. -/
def strippedText (name : PyStr) (obj : List (PyStr × Json)) : Option PyStr :=
  match (obj.lookup name).filter truthy with
  | none => some []
  | some (.str s) => some (strip s)
  | some _ => none

/-- `confirmed_metadata` where it is an object. -/
def Verdict.metadata (v : Verdict) : List (PyStr × Json) :=
  match v.obj.lookup "confirmed_metadata".toList with
  | some (.obj items) => items
  | _ => []

/-- The metadata that a verdict may confirm, and the fields it is written to. -/
def metadataFields : List (PyStr × PyStr) := [("authors".toList, "authors".toList),
  ("title".toList, "title".toList), ("venue".toList, "venue".toList), ("year".toList, "year".toList),
  ("doi".toList, "doi".toList), ("arxiv_id".toList, "arxiv".toList)]

def verifiedBy : PyStr := "verified-by".toList

def verifierMark : PyStr := "verifier".toList

/-- Whether a verdict with this source confirms its reference. -/
def Verdict.Confirms (v : Verdict) (src : PyStr) : Prop :=
  (v.ruling = .verified ∨ v.ruling = .corrected) ∧ src ≠ []

instance (v : Verdict) (src : PyStr) : Decidable (v.Confirms src) := inferInstanceAs (Decidable (_ ∧ _))

/-- The fields that `_apply_verdict_to_body` sets, in order; nothing where it raises. -/
def Verdict.assignments (v : Verdict) : Option Body :=
  (strippedText "source_url".toList v.obj).bind fun src =>
    (strippedText "note".toList v.obj).map fun note =>
      (if v.Confirms src then
        (metadataFields.filterMap fun f =>
          ((v.metadata.lookup f.1).filter truthy).map fun value => (f.2, strOf value)) ++
          [("source_url".toList, src), (verifiedBy, verifierMark)]
      else [(verifiedBy, "unverified (".toList ++ v.ruling.text ++ ")".toList)]) ++
      (if note = [] then [] else [("note".toList, note)])

/-- `_apply_verdict_to_body`, on the row of the verdict's key. -/
def Verdict.update (v : Verdict) (us : Body) : PyStr × (Body → Body) := (v.key, setAll us)

/-- The loop of `_apply_ledger_verdicts`: the last row of a key is the one that its verdicts rewrite. -/
def applyVerdicts : List Section → List Verdict → Option (List Section)
  | sections, [] => some sections
  | sections, v :: vs => v.assignments.bind fun us => applyVerdicts (upsert [] sections (v.update us)) vs

/-- One line of a row; blank ones are left out. -/
def itemLines (item : PyStr × PyStr) : List PyStr :=
  if item.1 = raw then (if strip item.2 = [] then [] else [item.2])
  else ["- ".toList ++ item.1 ++ ": ".toList ++ item.2]

def sectionLines (s : Section) : List PyStr :=
  [] :: ("## ".toList ++ s.1) :: s.2.flatMap itemLines

/-- What is written. -/
def renderLedger (preamble : List PyStr) (sections : List Section) : PyStr :=
  let pre := rstripFeeds (joinWith ['\n'] preamble)
  rstripFeeds (joinWith ['\n'] ((if pre = [] then [] else [pre]) ++ sections.flatMap sectionLines)) ++ ['\n']

/-- `_apply_ledger_verdicts` on the file's text; nothing where it raises. -/
def applyLedgerVerdicts (file : PyStr) (verdicts : List Verdict) : Option PyStr :=
  (parseLedgerSections (universalNewlines file)).bind fun p =>
    (applyVerdicts p.2 verdicts).map fun sections => renderLedger p.1 sections

end Fields
end Danus.WritePaper.References
