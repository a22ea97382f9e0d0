import Danus.FactGraph.Fact
import Danus.Lib.JsonScan
import Danus.Lib.Records
import Danus.Lib.Utf8

/-! `VERIFY_LEDGER.md` and the gate that `deliver` reads from it. -/
namespace Danus.WritePaper
open Python

/-- The fields of a row that the ledger holds, one line each. -/
inductive Field where
  | label | sourceFact | documentSha256 | status | lastVerdict | repairHints | ignorable | attempts
  | lastCheckedUtc
  deriving DecidableEq

namespace Field

def all : List Field := [.label, .sourceFact, .documentSha256, .status, .lastVerdict, .repairHints,
  .ignorable, .attempts, .lastCheckedUtc]

def name : Field → PyStr
  | .label => "label".toList
  | .sourceFact => "source_fact".toList
  | .documentSha256 => "document_sha256".toList
  | .status => "status".toList
  | .lastVerdict => "last_verdict".toList
  | .repairHints => "repair_hints".toList
  | .ignorable => "ignorable".toList
  | .attempts => "attempts".toList
  | .lastCheckedUtc => "last_checked_utc".toList

def ofName? (name : PyStr) : Option Field := all.find? fun f => f.name == name

/-- What a field's line starts with. -/
def tag (f : Field) : PyStr := "- ".toList ++ f.name ++ ": ".toList

end Field

structure LedgerRow where
  unitId : PyStr
  label : PyStr := []
  sourceFact : PyStr := []
  documentSha256 : PyStr := []
  status : PyStr := "pending".toList
  lastVerdict : PyStr := []
  repairHints : PyStr := []
  ignorable : PyStr := []
  attempts : Int := 0
  lastCheckedUtc : PyStr := []

/-- The digits of an `int(text)`, with the value so far; an underscore stands between two of them. -/
def digitRun (value : Nat) (digit : Bool) : PyStr → Option Nat
  | [] => if digit then some value else none
  | c :: cs =>
    if isDigit c then digitRun (value * 10 + (c.toNat - 48)) true cs
    else if c = '_' ∧ digit then digitRun value false cs else none

/-- `int(text)` of a stripped text in ASCII digits; nothing where it raises. -/
def intOf? : PyStr → Option Int
  | '-' :: cs => (digitRun 0 false cs).map fun n => -(n : Int)
  | '+' :: cs => (digitRun 0 false cs).map Int.ofNat
  | cs => (digitRun 0 false cs).map Int.ofNat

/-- What the ledger says of a field. -/
def LedgerRow.text (r : LedgerRow) : Field → PyStr
  | .label => r.label
  | .sourceFact => r.sourceFact
  | .documentSha256 => r.documentSha256
  | .status => r.status
  | .lastVerdict => r.lastVerdict
  | .repairHints => r.repairHints
  | .ignorable => r.ignorable
  | .attempts => Json.intText r.attempts
  | .lastCheckedUtc => r.lastCheckedUtc

/-- What `read_ledger` does with a field's line. -/
def LedgerRow.set (r : LedgerRow) (value : PyStr) : Field → LedgerRow
  | .label => { r with label := value }
  | .sourceFact => { r with sourceFact := value }
  | .documentSha256 => { r with documentSha256 := value }
  | .status => { r with status := value }
  | .lastVerdict => { r with lastVerdict := value }
  | .repairHints => { r with repairHints := value }
  | .ignorable => { r with ignorable := value }
  | .attempts => { r with attempts := (intOf? value).getD 0 }
  | .lastCheckedUtc => { r with lastCheckedUtc := value }

/-- `_ROW_HEAD_RE.match(line)`: the unit that a row is about. -/
def rowHead : PyStr → Option PyStr
  | '#' :: '#' :: rest =>
    let name := strip rest
    if rest.head?.any isSpace ∧ name ≠ [] ∧ name.all (!isSpace ·) then some name else none
  | _ => none

/-- `_ROW_FIELD_RE.match(line)` where it is a field of a row: the field and its value. -/
def rowField : PyStr → Option (Field × PyStr)
  | '-' :: rest =>
    let text := lstrip rest
    if rest.head?.any isSpace ∧ ':' ∈ text then
      (Field.ofName? (text.takeWhile (· ≠ ':'))).map fun f =>
        (f, strip ((text.dropWhile (· ≠ ':')).drop 1))
    else none
  | _ => none

/-- The rows read so far, and the unit of the last heading. -/
structure Reading where
  rows : List LedgerRow := []
  cur : Option PyStr := none

/-- `rows[cur.unit_id] = cur` -/
def putRow (rows : List LedgerRow) (row : LedgerRow) : List LedgerRow :=
  if rows.any (·.unitId == row.unitId) then
    rows.map fun r => if r.unitId == row.unitId then row else r
  else rows ++ [row]

/-- The loop of `read_ledger`. -/
def readLine (st : Reading) (line : PyStr) : Reading :=
  match rowHead line with
  | some unit => { rows := putRow st.rows { unitId := unit }, cur := some unit }
  | none =>
    match st.cur, rowField line with
    | some unit, some (f, value) =>
      { st with rows := st.rows.map fun r => if r.unitId == unit then r.set value f else r }
    | _, _ => st

/-- `read_ledger`; an absent file has no rows. -/
def readLedger : Option PyStr → List LedgerRow
  | none => []
  | some text => ((splitlines (universalNewlines text)).foldl readLine {}).rows

def headerTitle : PyStr := "# VERIFY_LEDGER — whole-paper math verification".toList

def headerComment : PyStr :=
  '<' :: "!-- ONLY the paper_verify_math tool writes verdict rows here. The main agent ".toList ++
  "READS this file to know per-unit status + hints + attempts, and gates deliver ".toList ++
  "on it (deliver is blocked unless every row is `correct` or `overridden`). The ".toList ++
  "whole-paper gate writes one `whole-paper` row. The paper-math verifier CLASSIFIES ".toList ++
  "its findings: `must-fix` (an undergraduate could not fill the step) drive the ".toList ++
  "verdict — any must-fix => status `wrong`; `ignorable` findings (an undergraduate ".toList ++
  "could fill them unaided) are recorded in the `ignorable` field and NEVER block ".toList ++
  "deliver — surface them to the operator, do not chase them. -->".toList

/-- `_LEDGER_HEADER` -/
def ledgerHeader : PyStr := joinWith ['\n'] [headerTitle, [], headerComment, []]

/-- The parts of a row in the file. -/
def rowParts (r : LedgerRow) : List PyStr :=
  ("\n## ".toList ++ r.unitId) :: Field.all.map fun f => f.tag ++ r.text f

/-- `write_ledger` -/
def writeLedger (rows : List LedgerRow) : PyStr :=
  rstripFeeds (joinWith ['\n'] (ledgerHeader :: rows.flatMap rowParts)) ++ ['\n']

def wholePaper : PyStr := "whole-paper".toList

/-- `merge_attempts` -/
def mergeAttempts (prev : List LedgerRow) (unit : PyStr) : Int :=
  ((prev.find? (·.unitId == unit)).map (·.attempts)).getD 0 + 1

/-- What keeps a row from being delivered; the document is `main.tex`. -/
def rowBlocker (document : Option (List Nat)) (r : LedgerRow) : Option PyStr :=
  if r.status ≠ "correct".toList ∧ r.status ≠ "trusted".toList ∧ r.status ≠ "overridden".toList then
    some (r.unitId ++ " [".toList ++ r.label ++ "] (".toList ++ r.status ++ ")".toList)
  else if r.unitId ≠ wholePaper then none
  else if isHexOf 64 r.documentSha256 = false then
    some "whole-paper [whole-paper] (missing verified document digest)".toList
  else
    match document with
    | none => some "whole-paper [whole-paper] (main.tex missing)".toList
    | some raw =>
      if Sha256.hexdigest raw ≠ r.documentSha256 then
        some "whole-paper [whole-paper] (main.tex changed after verification)".toList
      else none

/-- `deliver_ok` -/
def deliverOk (document : Option (List Nat)) (ledger : Option PyStr) : Bool × List PyStr :=
  let rows := readLedger ledger
  if rows = [] then (false, ["no ledger (run paper_verify_math first)".toList])
  else
    let blockers := rows.filterMap (rowBlocker document)
    (blockers.isEmpty, blockers)

section Lines
variable {c : Char} {line rest : PyStr} {st : Reading}

theorem rowHead_of_ne (hc : c ≠ '#') : rowHead (c :: rest) = none := by
  unfold rowHead
  split
  · next h => exact (hc (List.cons.inj h).1).elim
  · rfl

/-- A line that starts like a field names a field only with its own name. -/
theorem rowField_tag (f : Field) (value : PyStr) :
    rowField (f.tag ++ value) = some (f, strip value) := by
  have hsplit : f.tag ++ value = '-' :: ' ' :: (f.name ++ ':' :: ' ' :: value) := by
    simp [Field.tag]
  have hname : ∀ c ∈ f.name, c ≠ ':' := by cases f <;> decide
  have hhead : ∀ c ∈ (f.name ++ ':' :: ' ' :: value).head?, isSpace c = false := by
    cases f <;> intro c hc <;> cases hc <;> decide
  have hlead : lstrip (' ' :: (f.name ++ ':' :: ' ' :: value)) = f.name ++ ':' :: ' ' :: value := by
    rw [lstrip_cons_space (by decide)]
    cases f <;> exact lstrip_cons (by decide)
  have htake : (f.name ++ ':' :: ' ' :: value).takeWhile (· ≠ ':') = f.name := by
    rw [List.takeWhile_append_of_pos (by simpa using hname), List.takeWhile_cons_of_neg (by simp),
      List.append_nil]
  have hdrop : (f.name ++ ':' :: ' ' :: value).dropWhile (· ≠ ':') = ':' :: ' ' :: value := by
    rw [List.dropWhile_append_of_pos (by simpa using hname), List.dropWhile_cons_of_neg (by simp)]
  have hof : Field.ofName? f.name = some f := by cases f <;> decide
  have hcond : ((' ' :: (f.name ++ ':' :: ' ' :: value)).head?.any isSpace = true) ∧
      ':' ∈ f.name ++ ':' :: ' ' :: value := ⟨rfl, by simp⟩
  rw [hsplit, rowField]
  simp only [hlead, htake, hdrop, hof]
  rw [if_pos hcond, Option.map_some, List.drop_one, List.tail_cons, strip_cons_space (by decide)]

theorem readLine_field (hcur : st.cur = some wholePaper) (f : Field) (value : PyStr) :
    readLine st (f.tag ++ value) =
      { st with rows := st.rows.map fun r => if r.unitId == wholePaper then r.set (strip value) f else r } := by
  have hhead : rowHead (f.tag ++ value) = none := rowHead_of_ne (by decide)
  simp only [readLine, hhead, hcur, rowField_tag]

/-- A line of free text that is neither a heading nor a field's line. -/
def Inert (line : PyStr) : Prop := rowHead line = none ∧ rowField line = none

instance (line : PyStr) : Decidable (Inert line) :=
  inferInstanceAs (Decidable (_ ∧ _))

theorem readLine_inert (h : Inert line) : readLine st line = st := by
  simp only [readLine, h.1, h.2]
  cases st.cur <;> rfl

theorem foldl_inert {lines : List PyStr} (h : ∀ l ∈ lines, Inert l) : lines.foldl readLine st = st := by
  induction lines with
  | nil => rfl
  | cons l lines ih =>
    rw [List.foldl_cons, readLine_inert (h l List.mem_cons_self)]
    exact ih fun l' hl => h l' (List.mem_cons_of_mem _ hl)

end Lines

/-- Free text that the ledger can hold: the lines after its first one are read as nothing. -/
def FitsField (text : PyStr) : Prop := ∀ l ∈ continuation text, Inert l

instance (text : PyStr) : Decidable (FitsField text) :=
  inferInstanceAs (Decidable (∀ l ∈ continuation text, Inert l))

section RoundTrip
variable {row : LedgerRow}

theorem fitsField_line {s : PyStr} (hs : ∀ c ∈ s, isLineBreak c = false) : FitsField s := by
  intro l hl
  rw [continuation_line hs] at hl
  cases hl

theorem tag_line (f : Field) : (∀ c ∈ f.tag, isLineBreak c = false) ∧ f.tag ≠ [] := by
  cases f <;> exact ⟨by decide, by decide⟩

theorem intText_line (i : Int) : ∀ c ∈ Json.intText i, isLineBreak c = false := by
  have hdigits (n : Nat) : ∀ c ∈ natText n, isLineBreak c = false := by
    intro c hc
    have hd := Json.natText_digits n c hc
    rw [← Bool.not_eq_true]
    have hle (a b : Char) : a ≤ b ↔ a.toNat ≤ b.toNat := Iff.rfl
    have h0 : ('0' : Char).toNat = 48 := rfl
    have h9 : ('9' : Char).toNat = 57 := rfl
    simp only [isDigit, Bool.and_eq_true, decide_eq_true_eq, hle, h0, h9] at hd
    simp only [isLineBreak, Bool.or_eq_true, Bool.and_eq_true, decide_eq_true_eq, beq_iff_eq]
    omega
  rw [Json.intText]
  split_ifs
  · exact List.forall_mem_cons.mpr ⟨by decide, hdigits _⟩
  · exact hdigits _

theorem digest_chars (raw : List Nat) : ∀ c ∈ Sha256.hexdigest raw, isSpace c = false := by
  have h := Sha256.hexdigest_isHexOf raw
  simp only [isHexOf, Bool.and_eq_true, List.all_eq_true] at h
  intro c hc
  have hx := h.2 c hc
  have hle (a b : Char) : a ≤ b ↔ a.toNat ≤ b.toNat := Iff.rfl
  have h0 : ('0' : Char).toNat = 48 := rfl
  have h9 : ('9' : Char).toNat = 57 := rfl
  have ha : ('a' : Char).toNat = 97 := rfl
  have hf : ('f' : Char).toNat = 102 := rfl
  rw [← Bool.not_eq_true]
  simp only [isHex, Bool.or_eq_true, Bool.and_eq_true, decide_eq_true_eq, hle, h0, h9, ha, hf] at hx
  simp only [isSpace, Bool.or_eq_true, Bool.and_eq_true, decide_eq_true_eq, beq_iff_eq]
  omega

theorem digest_line (raw : List Nat) : ∀ c ∈ Sha256.hexdigest raw, isLineBreak c = false := by
  intro c hc
  rw [← Bool.not_eq_true]
  intro hb
  have hspace := isSpace_of_isLineBreak hb
  rw [digest_chars raw c hc] at hspace
  cases hspace

/-- The row that is read back of a row. -/
def LedgerRow.reread (row : LedgerRow) : LedgerRow :=
  Field.all.foldl (fun r f => r.set (strip ((fedLines (row.text f)).headD [])) f) { unitId := row.unitId }

/-- The lines of a row's fields set them one after another. -/
theorem foldl_fields (hfits : ∀ f, FitsField (row.text f)) (fields : List Field) (r : LedgerRow)
    (hr : r.unitId = wholePaper) :
    ((fields.map fun f => f.tag ++ row.text f).flatMap fedLines).foldl readLine ⟨[r], some wholePaper⟩ =
      ⟨[fields.foldl (fun r f => r.set (strip ((fedLines (row.text f)).headD [])) f) r],
        some wholePaper⟩ := by
  induction fields generalizing r with
  | nil => rfl
  | cons f fields ih =>
    have hset (value : PyStr) : (r.set value f).unitId = wholePaper := by
      cases f <;> exact hr
    have hline : readLine ⟨[r], some wholePaper⟩ (f.tag ++ (fedLines (row.text f)).headD []) =
        ⟨[r.set (strip ((fedLines (row.text f)).headD [])) f], some wholePaper⟩ := by
      rw [readLine_field rfl]
      simp [hr]
    rw [List.map_cons, List.flatMap_cons, List.foldl_append,
      fedLines_label (tag_line f).1 (tag_line f).2, List.foldl_cons, hline,
      foldl_inert (hfits f), ih _ (hset _), List.foldl_cons]

theorem headerTitle_line : ∀ c ∈ headerTitle, isLineBreak c = false := by
  have h : headerTitle.all (fun c => !isLineBreak c) = true := all_ofList (by decide +kernel)
  simpa using h

set_option maxRecDepth 4000 in
theorem headerComment_line : ∀ c ∈ headerComment, isLineBreak c = false := by
  have h : headerComment.all (fun c => !isLineBreak c) = true := by
    simp only [headerComment, List.all_append, List.cons_append, List.all_cons, Bool.and_eq_true]
    refine ⟨by decide, ?_⟩
    refine ⟨⟨⟨⟨⟨⟨⟨?_, ?_⟩, ?_⟩, ?_⟩, ?_⟩, ?_⟩, ?_⟩, ?_⟩
    all_goals exact all_ofList (by decide +kernel)
  simpa using h

theorem inert_of_ne {c : Char} {rest : PyStr} (hc : c ≠ '-') (hd : c ≠ '#' ∨ rest.head? ≠ some '#') :
    Inert (c :: rest) := by
  constructor
  · unfold rowHead
    split
    · next h =>
      obtain ⟨rfl, rfl⟩ := List.cons.inj h
      exact hd.elim (fun hd => (hd rfl).elim) fun hd => (hd rfl).elim
    · rfl
  · unfold rowField
    split
    · next h => exact (hc (List.cons.inj h).1).elim
    · rfl

theorem inert_nil : Inert [] := ⟨rfl, rfl⟩

theorem header_lines {title comment : PyStr} (ht : ∀ c ∈ title, isLineBreak c = false)
    (hc : ∀ c ∈ comment, isLineBreak c = false) :
    fedLines (joinWith ['\n'] [title, [], comment, []]) = [title, [], comment, []] := by
  have hblank : fedLines [] = [[]] := fedLines_line (List.forall_mem_nil _)
  rw [fedLines_join (List.cons_ne_nil _ _)]
  simp only [List.flatMap_cons, List.flatMap_nil, fedLines_line ht, fedLines_line hc, hblank,
    List.singleton_append]

/-- No line of the header is read. -/
theorem header_inert : ∀ l ∈ fedLines ledgerHeader, Inert l := by
  have htitle : ∃ rest, headerTitle = '#' :: ' ' :: rest := ⟨_, String.toList_ofList⟩
  have hcomment : ∃ rest, headerComment = '<' :: rest := ⟨_, rfl⟩
  obtain ⟨title, htitle⟩ := htitle
  obtain ⟨comment, hcomment⟩ := hcomment
  rw [ledgerHeader, header_lines headerTitle_line headerComment_line, htitle, hcomment]
  intro l hl
  simp only [List.mem_cons, List.not_mem_nil, or_false] at hl
  rcases hl with rfl | rfl | rfl | rfl
  · exact inert_of_ne (by decide) (.inr (by simp))
  · exact inert_nil
  · exact inert_of_ne (by decide) (.inl (by decide))
  · exact inert_nil

theorem readLine_unit : readLine {} ("## ".toList ++ wholePaper) =
    ⟨[{ unitId := wholePaper }], some wholePaper⟩ := by
  have hhead : rowHead ("## ".toList ++ wholePaper) = some wholePaper := by decide +kernel
  simp only [readLine, hhead]
  rfl

/-- The lines of a row's fields are read into an empty row. -/
theorem readLedger_lines (hunit : row.unitId = wholePaper)
    (hlast : row.lastCheckedUtc.getLast? ≠ some '\n') :
    readLedger (some (writeLedger [row])) = (((Field.all.map fun f => f.tag ++ row.text f).flatMap
      fedLines).foldl readLine ⟨[{ unitId := wholePaper }], some wholePaper⟩).rows := by
  have hparts : ledgerHeader :: [row].flatMap rowParts = ledgerHeader :: rowParts row := by simp
  have hstrip : rstripFeeds (joinWith ['\n'] (ledgerHeader :: rowParts row)) =
      joinWith ['\n'] (ledgerHeader :: rowParts row) := by
    apply rstripFeeds_self
    have hend : ∃ front, joinWith ['\n'] (ledgerHeader :: rowParts row) =
        front ++ (Field.tag .lastCheckedUtc ++ row.lastCheckedUtc) := by
      simp only [rowParts, Field.all, List.map_cons, List.map_nil, joinWith_cons_cons,
        joinWith_singleton, ← List.append_assoc]
      exact ⟨_, rfl⟩
    obtain ⟨front, hfront⟩ := hend
    rw [hfront, List.getLast?_append, List.getLast?_append]
    cases hl : row.lastCheckedUtc.getLast? with
    | none =>
      have htag : (Field.tag .lastCheckedUtc).getLast? = some ' ' := by decide
      rw [htag]
      exact fun h => absurd (Option.some.inj h) (by decide)
    | some c => rwa [hl] at hlast
  have hlines : splitlines (writeLedger [row]) = (ledgerHeader :: rowParts row).flatMap fedLines := by
    rw [writeLedger, hparts, hstrip]
    exact fedLines_join (List.cons_ne_nil _ _)
  have hhead : fedLines ("\n## ".toList ++ row.unitId) = [[], "## ".toList ++ wholePaper] := by
    rw [hunit]
    decide +kernel
  have hblank : readLine {} [] = {} := rfl
  rw [readLedger, splitlines_universalNewlines, hlines, List.flatMap_cons, List.foldl_append,
    foldl_inert header_inert, rowParts, List.flatMap_cons, List.foldl_append, hhead, List.foldl_cons,
    hblank, List.foldl_cons, List.foldl_nil, readLine_unit]

/-- What was written is read back, its free text cut after the first line. -/
theorem readLedger_writeLedger (hunit : row.unitId = wholePaper) (hfits : ∀ f, FitsField (row.text f))
    (hlast : row.lastCheckedUtc.getLast? ≠ some '\n') :
    readLedger (some (writeLedger [row])) = [row.reread] := by
  rw [readLedger_lines hunit hlast, foldl_fields hfits _ _ rfl, LedgerRow.reread, hunit]

theorem reread_status (hs : ∀ c ∈ row.status, isLineBreak c = false) :
    row.reread.status = strip row.status := by
  have h : (fedLines row.status).headD [] = row.status := by
    rw [fedLines_line hs]
    rfl
  calc row.reread.status = strip ((fedLines row.status).headD []) := rfl
    _ = strip row.status := by rw [h]

theorem reread_documentSha256 (hs : ∀ c ∈ row.documentSha256, isLineBreak c = false) :
    row.reread.documentSha256 = strip row.documentSha256 := by
  have h : (fedLines row.documentSha256).headD [] = row.documentSha256 := by
    rw [fedLines_line hs]
    rfl
  calc row.reread.documentSha256 = strip ((fedLines row.documentSha256).headD []) := rfl
    _ = strip row.documentSha256 := by rw [h]

end RoundTrip
end Danus.WritePaper
