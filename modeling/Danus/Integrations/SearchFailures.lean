import Danus.Integrations.GateSafety
import Danus.Lib.CodePoints
import Danus.Lib.Checks
import Danus.Lib.Sha256

/-! The failures of the gated search: texts with unpaired surrogates, bodies of any nesting, and every
way in which the one request can end. -/
namespace Danus.Integrations.SearchFailures
open Python CodeText

/-- What the interpreter has room for. -/
class Interpreter where
  /-- How deep a body may nest for `json.loads`. -/
  room : Nat
  /-- `str(value)` of a value that is no string, unless it nests too deep. -/
  valueText : RawJson → Option CodeText
  /-- `_MAX_BODY_BYTES` -/
  maxBodyBytes : Nat
  /-- `ARXIV_INDEX_URL` -/
  arxivIndexUrl : PyStr
  /-- `MATLAS_AI_URL` -/
  matlasAiUrl : PyStr

/-- The exceptions that nothing on the way out of `search` catches. -/
inductive Raised where
  | unicodeEncodeError | recursionError | overflowError | assertionError
  | connection
  deriving DecidableEq, Repr

/-- How the request ends. -/
inductive Reply where
  | tooLarge
  | httpError (code : Nat) (reason : PyStr)
  | urlError (reason : PyStr)
  /-- A timeout, or a `ValueError` of the body's bytes, text or numbers. -/
  | caught (name text : PyStr)
  | body (value : RawJson)
  /-- The connection ends while the status or the body is read: no `URLError` and no `ValueError`. -/
  | lost

/-- `num_results`: what `int` reads, what it rejects with a `TypeError` or a `ValueError`, or an infinite
float. -/
inductive Count where
  | number (i : Int)
  | unreadable
  | infinite
  deriving DecidableEq

/-- An item of the results, a `dict` of strings. -/
abbrev Record : Type := List (PyStr × CodeText)

/-- `item.get(name, "")` -/
def Record.field (item : Record) (name : PyStr) : CodeText := (item.lookup name).getD []

/-- Why an item is not normalised: the `ValueError` that the fetch reports, or an exception it lets pass. -/
inductive Failure where
  | overCap (message : PyStr)
  | raised (exception : Raised)

/-- `json.dumps(item, ensure_ascii=False, sort_keys=True)` -/
def recordText (item : Record) : CodeText :=
  ofStr ['\x7b'] ++ (ofStr [',', ' ']).intercalate ((Json.sortByKey item).map fun f =>
    quote (ofStr f.1) ++ ofStr [':', ' '] ++ quote f.2) ++ ofStr ['\x7d']

/-- `json.dumps(results, ensure_ascii=False, sort_keys=True)` -/
def resultsText (results : List Record) : CodeText :=
  ofStr ['['] ++ (ofStr [',', ' ']).intercalate (results.map recordText) ++ ofStr [']']

/-- `_digest` -/
def digestOf (results : List Record) : Except Raised PyStr :=
  match encode? (resultsText results) with
  | none => .error .unicodeEncodeError
  | some blob => .ok (Sha256.hexdigest blob)

/-- `hashlib.sha256(q.encode()).hexdigest()[:16]` -/
def queryHash (q : CodeText) : Except Raised PyStr :=
  match encode? q with
  | none => .error .unicodeEncodeError
  | some bytes => .ok ((Sha256.hexdigest bytes).take 16)

/-- `_audit` of a record with these texts: where its ledger opens as a regular file of ours, the line is
encoded. The run's id, role and cutoff, which the record also holds, come from an environment that is UTF-8. -/
def audit (opens : Bool) (texts : List CodeText) : Except Raised Unit :=
  if opens ∧ ∃ t ∈ texts, ¬ Encodes t then .error .unicodeEncodeError else .ok ()

/-- The keys of an envelope that only some have. -/
structure Extra where
  gateFatal : Bool
  droppedByGate : Option Nat
  gateViolations : Nat
  recallSaturated : Bool

/-- What `search` returns. -/
structure Envelope where
  query : CodeText
  count : Nat
  results : List Record
  endpoint : PyStr
  mode : PyStr
  digest : PyStr
  error : Option PyStr
  extra : Extra

/-- `_envelope` -/
def envelope (query : CodeText) (endpoint mode : PyStr) (results : List Record)
    (error : Option PyStr) (extra : Extra) : Except Raised Envelope := do
  let digest ← digestOf results
  return ⟨query, results.length, results, endpoint, mode, digest, error, extra⟩

/-- `_envelope` of an error. -/
def refusal (query : CodeText) (endpoint mode error : PyStr) (fatal : Bool) :
    Except Raised Envelope :=
  envelope query endpoint mode [] (some error) ⟨fatal, none, 0, false⟩

theorem encodes_recordText {item : Record} :
    Encodes (recordText item) ↔ ∀ f ∈ item, Encodes f.2 := by
  have hsep : Encodes (ofStr [',', ' ']) := encodes_ofStr _
  simp only [recordText, encodes_append, encodes_ofStr, true_and, and_true,
    encodes_intercalate hsep, List.forall_mem_map, encodes_quote]
  exact forall_congr' fun f => by rw [(Json.sortByKey_perm item).mem_iff]

theorem encodes_resultsText {results : List Record} :
    Encodes (resultsText results) ↔ ∀ item ∈ results, ∀ f ∈ item, Encodes f.2 := by
  have hsep : Encodes (ofStr [',', ' ']) := encodes_ofStr _
  simp only [resultsText, encodes_append, encodes_ofStr, true_and, and_true,
    encodes_intercalate hsep, List.forall_mem_map, encodes_recordText]

theorem digestOf_ok_iff {results : List Record} :
    (∃ d, digestOf results = .ok d) ↔ ∀ item ∈ results, ∀ f ∈ item, Encodes f.2 := by
  rw [← encodes_resultsText, ← encode?_isSome_iff, Option.isSome_iff_exists, digestOf]
  split
  · rename_i hn
    simp [hn]
  · rename_i blob hb
    simp [hb]

theorem queryHash_ok_iff {q : CodeText} : (∃ h, queryHash q = .ok h) ↔ Encodes q := by
  rw [← encode?_isSome_iff, Option.isSome_iff_exists, queryHash]
  split
  · rename_i hn
    simp [hn]
  · rename_i bytes hb
    simp [hb]

theorem audit_ok_iff {opens : Bool} {texts : List CodeText} :
    audit opens texts = .ok () ↔ (opens = true → ∀ t ∈ texts, Encodes t) := by
  rw [audit]
  split_ifs with h
  · obtain ⟨ho, t, ht, hn⟩ := h
    simpa [ho] using ⟨t, ht, hn⟩
  · simpa using h

theorem audit_ofStr (opens : Bool) (s : PyStr) : audit opens [ofStr s] = .ok () := by
  rw [audit_ok_iff]
  intro _ t ht
  rw [List.mem_singleton.mp ht]
  exact encodes_ofStr s

theorem envelope_ok {query : CodeText} {endpoint mode : PyStr} {results : List Record}
    {error : Option PyStr} {extra : Extra} {env : Envelope}
    (h : envelope query endpoint mode results error extra = .ok env) :
    env.count = env.results.length := by
  obtain ⟨d, -, hd⟩ := Checks.bind_ok.mp h
  rw [← Checks.pure_ok.mp hd]

/-- An envelope without results is always built. -/
theorem refusal_ok (query : CodeText) (endpoint mode error : PyStr) (fatal : Bool) :
    ∃ env, refusal query endpoint mode error fatal = .ok env ∧ env.count = env.results.length := by
  obtain ⟨d, hd⟩ := digestOf_ok_iff.mpr (show ∀ item ∈ ([] : List Record), _ from by simp)
  refine ⟨_, Checks.bind_ok.mpr ⟨d, hd, rfl⟩, rfl⟩

/-- `field(name)` and `value(raw, name=name)`: the text, within the cap on its characters. -/
def withinCap (message : PyStr) (text : Option CodeText) : Except Failure CodeText :=
  match text with
  | none => .error (.raised .recursionError)
  | some t => if maxFieldChars < t.length then .error (.overCap message) else .ok t

/-- The first failure among the texts of the fields. -/
inductive Fault where
  | noText | overCap

def faultOf : Option CodeText → Option Fault
  | none => some .noText
  | some t => if maxFieldChars < t.length then some .overCap else none

/-- How a normalisation ends whose first failure is this one. -/
inductive Ends {α : Type} : Option Fault → Except Failure α → Prop
  | fits (a : α) : Ends none (.ok a)
  | overCap (message : PyStr) : Ends (some .overCap) (.error (.overCap message))
  | noText : Ends (some .noText) (.error (.raised .recursionError))

section Fetching
variable {α β : Type} {p q : Option Fault} {x : Except Failure α} {f : α → Except Failure β}

theorem Ends.bind (hx : Ends p x) (hf : ∀ a, Ends q (f a)) : Ends (p.or q) (x >>= f) := by
  cases hx with
  | fits a => exact hf a
  | overCap message => exact .overCap message
  | noText => exact .noText

theorem Ends.map {g : α → β} (hx : Ends p x) : Ends p (x.map g) := by
  cases hx with
  | fits a => exact .fits (g a)
  | overCap message => exact .overCap message
  | noText => exact .noText

theorem ends_withinCap (message : PyStr) (text : Option CodeText) :
    Ends (faultOf text) (withinCap message text) := by
  cases text with
  | none => exact .noText
  | some t =>
    by_cases h : maxFieldChars < t.length
    · simpa [faultOf, withinCap, h] using Ends.overCap message
    · simpa [faultOf, withinCap, h] using Ends.fits t

/-- Of a list of normalisations the first failure decides. -/
theorem ends_mapM {f : α → Except Failure β} {fault : α → Option Fault} {l : List α}
    (h : ∀ a ∈ l, Ends (fault a) (f a)) : Ends (l.findSome? fault) (l.mapM f) := by
  induction l with
  | nil => exact .fits []
  | cons a l ih =>
    rw [List.forall_mem_cons] at h
    rw [List.mapM_cons, List.findSome?_cons]
    have hend : Ends ((fault a).or (l.findSome? fault))
        (f a >>= fun b => (l.mapM f) >>= fun bs => pure (b :: bs)) := by
      refine h.1.bind fun b => ?_
      rw [← Option.or_none (o := l.findSome? fault)]
      exact (ih h.2).bind fun bs => .fits _
    cases hf : fault a <;> simpa [hf] using hend

end Fetching

/-- `n`, the results that the caller wants. -/
def requested : Count → Except Raised Nat
  | .number i => .ok (wanted (some i))
  | .unreadable => .ok (wanted none)
  | .infinite => .error .overflowError

theorem requested_ok_iff {numResults : Count} :
    (∃ n, requested numResults = .ok n) ↔ numResults ≠ .infinite := by
  cases numResults with
  | number i => simp [requested]
  | unreadable => simp [requested]
  | infinite => simp [requested]

/-- A field of a result that is read from a body: its key, the name its errors give it, and its text. -/
structure Reading where
  key : PyStr
  name : PyStr
  text : Option CodeText

/-- Before a field without a text comes one over the cap, whose `ValueError` ends the fetch. -/
def Legible (texts : List (Option CodeText)) : Prop :=
  ∀ before after, texts = before ++ none :: after → ∃ t, some t ∈ before ∧ maxFieldChars < t.length

/-- A fetch lets no exception pass just when the first failure among its texts is no missing text. -/
theorem legible_iff {texts : List (Option CodeText)} :
    Legible texts ↔ texts.findSome? faultOf ≠ some .noText := by
  constructor
  · intro h hf
    obtain ⟨before, t, after, rfl, ht, hbefore⟩ := List.findSome?_eq_some_iff.mp hf
    cases t with
    | none =>
      obtain ⟨u, hu, hlong⟩ := h before after rfl
      have hfits := hbefore _ hu
      simp [faultOf, hlong] at hfits
    | some t =>
      rw [faultOf] at ht
      split_ifs at ht
      cases ht
  · rintro h before after rfl
    induction before with
    | nil => exact absurd rfl h
    | cons t before ih =>
      cases t with
      | none => exact absurd rfl h
      | some t =>
        by_cases hlong : maxFieldChars < t.length
        · exact ⟨t, List.mem_cons_self, hlong⟩
        · rw [List.cons_append, List.findSome?_cons, faultOf, if_neg hlong] at h
          obtain ⟨u, hu, hover⟩ := ih h
          exact ⟨u, List.mem_cons_of_mem _ hu, hover⟩

theorem findSome?_readings (read : List (CodeText × RawJson) → List Reading)
    (objs : List (List (CodeText × RawJson))) :
    (objs.flatMap fun item => (read item).map Reading.text).findSome? faultOf =
      objs.findSome? fun item => (read item).findSome? fun r => faultOf r.text := by
  induction objs with
  | nil => rfl
  | cons item objs ih =>
    rw [List.flatMap_cons, List.findSome?_append, ih, List.findSome?_map, List.findSome?_cons]
    simp only [Function.comp_def]
    cases (read item).findSome? fun r => faultOf r.text <;> rfl

variable [Interpreter]

/-- `str(value)` -/
def strOf : RawJson → Option CodeText
  | .str t => some t
  | v => Interpreter.valueText v

/-- `bool(value)` -/
def truthy : RawJson → Bool
  | .null => false
  | .bool b => b
  | .int i => i != 0
  | .float x => !((x.text.takeWhile fun c => c != 'e' && c != 'E').all fun c =>
      c == '0' || c == '.' || c == '-')
  | .str t => t ≠ []
  | .arr items => !items.isEmpty
  | .obj items => !items.isEmpty

/-- `_post_json` -/
def postJson : Reply → Except Raised (Except PyStr RawJson)
  | .tooLarge => .ok (.error ("response exceeds ".toList ++ natText Interpreter.maxBodyBytes ++
      " bytes (cap; body rejected unread)".toList))
  | .httpError code reason => .ok (.error ("http ".toList ++ natText code ++ ": ".toList ++ reason))
  | .urlError reason => .ok (.error ("network: ".toList ++ reason))
  | .caught name text => .ok (.error (name ++ ": ".toList ++ text))
  | .body v => if Interpreter.room < v.nesting then .error .recursionError else .ok (.ok v)
  | .lost => .error .connection

/-- `type(data).__name__` -/
def typeName : RawJson → PyStr
  | .null => "NoneType".toList
  | .bool _ => "bool".toList
  | .int _ => "int".toList
  | .float _ => "float".toList
  | .str _ => "str".toList
  | .arr _ => "list".toList
  | .obj _ => "dict".toList

/-- The fields that `_normalize_arxiv_item` reads, in order. -/
def arxivReadings (item : List (CodeText × RawJson)) : List Reading :=
  ["title".toList, "theorem".toList, "arxiv_id".toList, "theorem_id".toList].map fun name =>
    ⟨name, name, match item.lookup (ofStr name) with
      | none => some []
      | some v => strOf v⟩

/-- `_normalize_arxiv_item` -/
def normalizeArxivItem (item : List (CodeText × RawJson)) : Except Failure Record := do
  let fields ← (arxivReadings item).mapM fun r =>
    (withinCap ("arXiv result field ".toList ++ r.name ++ " exceeds its character cap".toList)
      r.text).map fun t => (r.key, t)
  return fields ++ [("source_type".toList, ofStr "arxiv".toList)]

/-- `str(raw or "")` -/
def rawText (raw : Option RawJson) : Option CodeText :=
  match raw with
  | none => some []
  | some v => if truthy v then strOf v else some []

/-- The fields that `_normalize_matlas_ai_item` reads, in order. -/
def matlasReadings (item : List (CodeText × RawJson)) : List Reading :=
  let get := fun (name : PyStr) => item.lookup (ofStr name)
  [⟨"title".toList, "title".toList, rawText (get "title".toList)⟩,
    ⟨"theorem".toList, "statement".toList, rawText (get "statement".toList)⟩,
    ⟨"theorem_id".toList, "theorem_id".toList,
      rawText (((get "entity_name".toList).filter truthy).or (get "candidate_id".toList))⟩,
    ⟨"doi".toList, "doi".toList, rawText (get "doi".toList)⟩,
    ⟨"journal".toList, "journal".toList, rawText (get "journal".toList)⟩,
    ⟨"year".toList, "year".toList, rawText (get "year".toList)⟩,
    ⟨"authors".toList, "authors".toList, rawText (get "authors".toList)⟩,
    ⟨"source_type".toList, "type".toList, rawText (get "type".toList)⟩]

/-- `_normalize_matlas_ai_item` -/
def normalizeMatlasItem (item : List (CodeText × RawJson)) : Except Failure Record := do
  let fields ← (matlasReadings item).mapM fun r =>
    (withinCap ("Matlas result field ".toList ++ r.name ++ " exceeds its character cap".toList)
      r.text).map fun t => (r.key, t)
  return ("arxiv_id".toList, []) :: fields.map fun f =>
    if f.1 = "source_type".toList ∧ f.2 = [] then (f.1, ofStr "matlas".toList) else f

/-- The first `_MAX_RESULTS` items that are objects. -/
def objects (items : List RawJson) : List (List (CodeText × RawJson)) :=
  (items.take maxResults).filterMap fun v =>
    match v with
    | .obj fields => some fields
    | _ => none

/-- The items normalised; a `ValueError` is reported, and no other exception. -/
def normalized (normalizeItem : List (CodeText × RawJson) → Except Failure Record)
    (items : List RawJson) : Except Raised (Except PyStr (List Record)) :=
  match (objects items).mapM normalizeItem with
  | .ok records => .ok (.ok records)
  | .error (.overCap message) => .ok (.error message)
  | .error (.raised exception) => .error exception

/-- The records of the list that a provider returns, or the error that it is reported with. -/
def fetch (normalizeItem : List (CodeText × RawJson) → Except Failure Record) (provider : PyStr)
    (reply : Reply) : Except Raised (Except PyStr (List Record)) := do
  match ← postJson reply with
  | .error err => return .error err
  | .ok (.arr items) => normalized normalizeItem items
  | .ok data => return .error (provider ++ " must return a JSON list, got ".toList ++ typeName data)

/-- `_fetch_arxiv_index` -/
def fetchArxivIndex (reply : Reply) : Except Raised (Except PyStr (List Record)) :=
  fetch normalizeArxivItem "theorem endpoint".toList reply

/-- `_fetch_matlas_ai` -/
def fetchMatlasAi (reply : Reply) : Except Raised (Except PyStr (List Record)) :=
  fetch normalizeMatlasItem "matlas.ai".toList reply

/-- The records that the provider of the mode returns. -/
def fetched (cfg : GateConfig) (reply : Reply) : Except Raised (Except PyStr (List Record)) :=
  if cfg.mode = "strict".toList then fetchMatlasAi reply else fetchArxivIndex reply

/-- The endpoint of the mode. -/
def endpointOf (cfg : GateConfig) : PyStr :=
  if cfg.mode = "strict".toList then Interpreter.matlasAiUrl else Interpreter.arxivIndexUrl

/-- The fields that the provider of the mode is read for. -/
def readingsOf (cfg : GateConfig) : List (CodeText × RawJson) → List Reading :=
  if cfg.mode = "strict".toList then matlasReadings else arxivReadings

/-- The request ends, and its body is read, without an exception that passes the handlers. -/
inductive Received (read : List (CodeText × RawJson) → List Reading) : Reply → Prop
  | tooLarge : Received read .tooLarge
  | httpError (code : Nat) (reason : PyStr) : Received read (.httpError code reason)
  | urlError (reason : PyStr) : Received read (.urlError reason)
  | caught (name text : PyStr) : Received read (.caught name text)
  | body (value : RawJson) (hroom : value.nesting ≤ Interpreter.room)
      (hlegible : ∀ items, value = .arr items →
        Legible ((objects items).flatMap fun item => (read item).map Reading.text)) :
      Received read (.body value)

theorem ends_normalizeArxivItem (item : List (CodeText × RawJson)) :
    Ends ((arxivReadings item).findSome? fun r => faultOf r.text) (normalizeArxivItem item) := by
  rw [normalizeArxivItem, ← Option.or_none (o := List.findSome? _ _)]
  exact (ends_mapM fun r _ => (ends_withinCap _ r.text).map).bind fun fields => .fits _

theorem ends_normalizeMatlasItem (item : List (CodeText × RawJson)) :
    Ends ((matlasReadings item).findSome? fun r => faultOf r.text) (normalizeMatlasItem item) := by
  rw [normalizeMatlasItem, ← Option.or_none (o := List.findSome? _ _)]
  exact (ends_mapM fun r _ => (ends_withinCap _ r.text).map).bind fun fields => .fits _

section Fetch
variable {normalizeItem : List (CodeText × RawJson) → Except Failure Record}
  {read : List (CodeText × RawJson) → List Reading} {provider : PyStr} {reply : Reply}

omit [Interpreter] in
/-- The items of a list are normalised, or the first that is over the cap is reported. -/
theorem normalized_ok_iff
    (hread : ∀ item, Ends ((read item).findSome? fun r => faultOf r.text) (normalizeItem item))
    (items : List RawJson) :
    (∃ r, normalized normalizeItem items = .ok r) ↔
      Legible ((objects items).flatMap fun item => (read item).map Reading.text) := by
  rw [legible_iff, findSome?_readings, normalized]
  have hend := ends_mapM (l := objects items) fun item _ => hread item
  generalize (objects items).mapM normalizeItem = x at hend
  generalize (objects items).findSome? _ = p at hend
  cases hend <;> simp

theorem fetch_of_error {err : PyStr} (h : postJson reply = .ok (.error err)) :
    fetch normalizeItem provider reply = .ok (.error err) := by
  rw [fetch, h]
  rfl

/-- Of the bodies only a list can end the fetch with an exception. -/
theorem fetch_body (normalizeItem : List (CodeText × RawJson) → Except Failure Record) (provider : PyStr)
    {value : RawJson} (hroom : value.nesting ≤ Interpreter.room) :
    (∃ items, value = .arr items ∧
      fetch normalizeItem provider (.body value) = normalized normalizeItem items) ∨
    (∀ items, value ≠ .arr items) ∧ ∃ err, fetch normalizeItem provider (.body value) = .ok (.error err) := by
  have hpost : postJson (.body value) = .ok (.ok value) := if_neg (Nat.not_lt.mpr hroom)
  rw [fetch, hpost]
  cases value with
  | arr items => exact .inl ⟨items, rfl, rfl⟩
  | _ => exact .inr ⟨nofun, _, rfl⟩

theorem fetch_ok_iff
    (hread : ∀ item, Ends ((read item).findSome? fun r => faultOf r.text) (normalizeItem item)) :
    (∃ r, fetch normalizeItem provider reply = .ok r) ↔ Received read reply := by
  cases reply with
  | tooLarge => exact iff_of_true ⟨_, fetch_of_error rfl⟩ .tooLarge
  | httpError code reason => exact iff_of_true ⟨_, fetch_of_error rfl⟩ (.httpError code reason)
  | urlError reason => exact iff_of_true ⟨_, fetch_of_error rfl⟩ (.urlError reason)
  | caught name text => exact iff_of_true ⟨_, fetch_of_error rfl⟩ (.caught name text)
  | lost => exact iff_of_false (fun ⟨r, hr⟩ => by cases hr) nofun
  | body value =>
    by_cases hroom : value.nesting ≤ Interpreter.room
    · rcases fetch_body normalizeItem provider hroom with ⟨items, rfl, hf⟩ | ⟨hlist, err, hf⟩
      · rw [hf, normalized_ok_iff hread]
        refine ⟨fun h => .body _ hroom fun items' he => ?_, fun h => ?_⟩
        · cases he
          exact h
        · cases h with
          | body _ _ hlegible => exact hlegible items rfl
      · exact iff_of_true ⟨_, hf⟩ (.body value hroom fun items he => absurd he (hlist items))
    · have hpost : postJson (.body value) = .error .recursionError := if_pos (Nat.not_le.mp hroom)
      refine iff_of_false (fun ⟨r, hr⟩ => ?_) fun h => ?_
      · rw [fetch, hpost] at hr
        cases hr
      · cases h with
        | body _ hroom' _ => exact hroom hroom'

end Fetch

theorem fetched_ok_iff {cfg : GateConfig} {reply : Reply} :
    (∃ r, fetched cfg reply = .ok r) ↔ Received (readingsOf cfg) reply := by
  rw [fetched, readingsOf]
  split_ifs with hmode
  · exact fetch_ok_iff ends_normalizeMatlasItem
  · exact fetch_ok_iff ends_normalizeArxivItem

variable [Tables]

/-- `_gate_arxiv` of one item. An id with a surrogate is no source's id and has no month. -/
def arxivReason (cfg : GateConfig) (cutoff : Nat) (item : Record) : Option DropReason :=
  match toStr? (item.field "arxiv_id".toList) with
  | none => some .undatableId
  | some aid =>
    if normalizeId aid ≠ [] ∧ normalizeId aid ∈ cfg.sourceIds then some .sourcePaper
    else
      match arxivMonth aid with
      | none => some .undatableId
      | some month => if cutoff ≤ month then some .atOrAfterCutoff else none

/-- A text for a search of digits, where a mark stands for each surrogate. -/
def marked (t : CodeText) : PyStr :=
  t.map fun
    | .inl c => c
    | .inr _ => '!'

/-- `_gate_matlas_ai` of one item. -/
def matlasReason (cutoff : Nat) (item : Record) : Option DropReason :=
  match firstYear (marked (strip (item.field "year".toList))) with
  | some year => if cutoff / 12 ≤ year then some .atOrAfterCutoff else none
  | none =>
    if (toStr? (strip (item.field "source_type".toList))).map Tables.lower = some "book".toList then none
    else some .undatableYear

/-- The items that a gate keeps, and the others' ids with the reasons. -/
def gate (reason : Record → Option DropReason) (id : PyStr) (raw : List Record) :
    List Record × List (CodeText × DropReason) :=
  (raw.filter fun item => (reason item).isNone,
    raw.filterMap fun item => (reason item).map fun r => (item.field id, r))

/-- The gate of the mode. -/
def gated (cfg : GateConfig) (raw : List Record) :
    Except Raised (List Record × List (CodeText × DropReason)) :=
  if cfg.mode = "open".toList then .ok (raw, [])
  else if cfg.mode = "strict".toList then
    match cfg.cutoff with
    | none => .ok (raw, [])
    | some cutoff => .ok (gate (matlasReason cutoff) "doi".toList raw)
  else
    match cfg.cutoff with
    | none => .error .assertionError
    | some cutoff => .ok (gate (arxivReason cfg cutoff) "arxiv_id".toList raw)

/-- The end of `search`, once the provider has returned these records. -/
def report (cfg : GateConfig) (opens : Bool) (query : CodeText) (n : Nat) (raw : List Record) :
    Except Raised Envelope := do
  let found ← gated cfg raw
  let violations := found.2.filter fun d => d.2 = .sourcePaper ∨ d.2 = .atOrAfterCutoff
  let out := found.1.take n
  let _ ← queryHash (strip query)
  let _ ← digestOf out
  audit opens (found.2.map Prod.fst)
  envelope query (endpointOf cfg) cfg.mode out none
    ⟨false, some found.2.length, violations.length,
      !(n < found.1.length) && out.length < n && cfg.mode ≠ "open".toList⟩

/-- `search`, where the audit ledger opens or does not, and the one request ends in this way. -/
def search (cfg : GateConfig) (opens : Bool) (query : CodeText) (numResults : Count) (reply : Reply) :
    Except Raised Envelope :=
  match cfg.validate with
  | some fatal => do
    audit opens [ofStr fatal]
    refusal query [] cfg.mode ("gate refused: ".toList ++ fatal) true
  | none =>
    if strip query = [] then refusal query [] cfg.mode "empty query".toList false
    else do
      let n ← requested numResults
      if cfg.mode = "off".toList then
        let _ ← queryHash (strip query)
        audit opens []
        refusal query [] "off".toList ("retrieval is disabled for this run (mode=off); ".toList ++
          "answer from the problem statement alone".toList) false
      else
        match ← fetched cfg reply with
        | .error err =>
          audit opens [ofStr err]
          refusal query (endpointOf cfg) cfg.mode err false
        | .ok raw => report cfg opens query n raw

section Search
variable {cfg : GateConfig} {opens : Bool} {query : CodeText} {numResults : Count} {reply : Reply}

omit [Interpreter] in
/-- A usable configuration that filters has a cutoff where its gate needs one. -/
theorem gated_ok (hcfg : cfg.validate = none) (hmode : cfg.mode ≠ "off".toList) (raw : List Record) :
    ∃ found, gated cfg raw = .ok found := by
  rw [gated]
  split_ifs with hopen hstrict
  · exact ⟨_, rfl⟩
  · split
    · exact ⟨_, rfl⟩
    · exact ⟨_, rfl⟩
  · split
    · rename_i hcutoff
      unfold GateConfig.validate at hcfg
      split_ifs at hcfg with hvalid heval hrefused hdated
      simp only [GateConfig.validModes, List.mem_cons, List.not_mem_nil, or_false] at hvalid
      rcases hvalid with h | h | h | h
      · exact absurd h hopen
      · exact absurd h hstrict
      · exact absurd ⟨h, hcutoff⟩ hdated
      · exact absurd h hmode
    · exact ⟨_, rfl⟩

theorem report_ok_iff {n : Nat} {raw : List Record} {found : List Record × List (CodeText × DropReason)}
    (hfound : gated cfg raw = .ok found) :
    (∃ env, report cfg opens query n raw = .ok env) ↔
      Encodes (strip query) ∧ (∀ item ∈ found.1.take n, ∀ f ∈ item, Encodes f.2) ∧
        (opens = true → ∀ d ∈ found.2, Encodes d.1) := by
  rw [← queryHash_ok_iff, ← digestOf_ok_iff, ← List.forall_mem_map (f := Prod.fst), ← audit_ok_iff]
  constructor
  · rintro ⟨env, h⟩
    obtain ⟨found', hfound', h⟩ := Checks.bind_ok.mp h
    cases hfound.symm.trans hfound'
    obtain ⟨sha, hsha, h⟩ := Checks.bind_ok.mp h
    obtain ⟨digest, hdigest, h⟩ := Checks.bind_ok.mp h
    obtain ⟨_, haudit, -⟩ := Checks.bind_ok.mp h
    exact ⟨⟨sha, hsha⟩, ⟨digest, hdigest⟩, haudit⟩
  · rintro ⟨⟨sha, hsha⟩, ⟨digest, hdigest⟩, haudit⟩
    rw [report, hfound]
    change ∃ env, (queryHash (strip query) >>= _) = .ok env
    rw [hsha]
    change ∃ env, (digestOf (found.1.take n) >>= _) = .ok env
    rw [hdigest]
    change ∃ env, (audit opens (found.2.map Prod.fst) >>= _) = .ok env
    rw [haudit]
    change ∃ env, (digestOf (found.1.take n) >>= _) = .ok env
    rw [hdigest]
    exact ⟨_, rfl⟩

/-- What is found can be hashed and logged. -/
structure Clean (cfg : GateConfig) (opens : Bool) (query : CodeText) (n : Nat) (raw : List Record) :
    Prop where
  query : Encodes (strip query)
  kept : ∀ found, gated cfg raw = .ok found → ∀ item ∈ found.1.take n, ∀ f ∈ item, Encodes f.2
  dropped : opens = true → ∀ found, gated cfg raw = .ok found → ∀ d ∈ found.2, Encodes d.1

/-- The requests that are answered. -/
inductive Answered (cfg : GateConfig) (opens : Bool) (query : CodeText) (numResults : Count)
    (reply : Reply) : Prop
  | refused (hcfg : cfg.validate ≠ none)
  | blank (hq : strip query = [])
  | off (hcount : numResults ≠ .infinite) (hmode : cfg.mode = "off".toList)
      (hq : Encodes (strip query))
  | fetched (hcount : numResults ≠ .infinite) (hmode : cfg.mode ≠ "off".toList)
      (hreply : Received (readingsOf cfg) reply)
      (hfound : ∀ raw n, fetched cfg reply = .ok (.ok raw) → requested numResults = .ok n →
        Clean cfg opens query n raw)

theorem report_ok_iff_clean (hcfg : cfg.validate = none) (hmode : cfg.mode ≠ "off".toList) {n : Nat}
    {raw : List Record} :
    (∃ env, report cfg opens query n raw = .ok env) ↔ Clean cfg opens query n raw := by
  obtain ⟨found, hfound⟩ := gated_ok hcfg hmode raw
  rw [report_ok_iff hfound]
  refine ⟨fun h => ⟨h.1, fun found' hf => ?_, fun hopens found' hf => ?_⟩, fun h => ?_⟩
  · cases hfound.symm.trans hf
    exact h.2.1
  · cases hfound.symm.trans hf
    exact h.2.2 hopens
  · exact ⟨h.query, h.kept found hfound, fun hopens => h.dropped hopens found hfound⟩

theorem report_counts {n : Nat} {raw : List Record} {env : Envelope}
    (h : report cfg opens query n raw = .ok env) : env.count = env.results.length := by
  obtain ⟨found, -, h⟩ := Checks.bind_ok.mp h
  obtain ⟨-, -, h⟩ := Checks.bind_ok.mp h
  obtain ⟨-, -, h⟩ := Checks.bind_ok.mp h
  obtain ⟨-, -, h⟩ := Checks.bind_ok.mp h
  exact envelope_ok h

/-- The requests that need none of the provider. -/
theorem search_of_fatal {fatal : PyStr} (hcfg : cfg.validate = some fatal) :
    ∃ env, search cfg opens query numResults reply = .ok env ∧ env.count = env.results.length := by
  rw [search, hcfg]
  obtain ⟨env, henv, hcount⟩ :=
    refusal_ok query [] cfg.mode ("gate refused: ".toList ++ fatal) true
  exact ⟨env, Checks.bind_ok.mpr ⟨(), audit_ofStr opens fatal, henv⟩, hcount⟩

theorem search_of_blank (hcfg : cfg.validate = none) (hq : strip query = []) :
    ∃ env, search cfg opens query numResults reply = .ok env ∧ env.count = env.results.length := by
  rw [search, hcfg]
  simp only [if_pos hq]
  exact refusal_ok query [] cfg.mode _ false

theorem search_of_off (hcfg : cfg.validate = none) (hq : strip query ≠ []) (hmode : cfg.mode = "off".toList) :
    (∃ env, search cfg opens query numResults reply = .ok env ∧ env.count = env.results.length) ↔
      numResults ≠ .infinite ∧ Encodes (strip query) := by
  rw [search, hcfg]
  simp only [if_neg hq, if_pos hmode]
  rw [← requested_ok_iff, ← queryHash_ok_iff]
  constructor
  · rintro ⟨env, h, -⟩
    obtain ⟨n, hn, h⟩ := Checks.bind_ok.mp h
    obtain ⟨sha, hsha, -⟩ := Checks.bind_ok.mp h
    exact ⟨⟨n, hn⟩, ⟨sha, hsha⟩⟩
  · rintro ⟨⟨n, hn⟩, ⟨sha, hsha⟩⟩
    have haudit : audit opens [] = .ok () := audit_ok_iff.mpr (by simp)
    obtain ⟨env, henv, hcount⟩ := refusal_ok query [] "off".toList
      ("retrieval is disabled for this run (mode=off); ".toList ++
          "answer from the problem statement alone".toList) false
    refine ⟨env, Checks.bind_ok.mpr ⟨n, hn, ?_⟩, hcount⟩
    exact Checks.bind_ok.mpr ⟨sha, hsha, Checks.bind_ok.mpr ⟨(), haudit, henv⟩⟩

theorem search_of_fetched (hcfg : cfg.validate = none) (hq : strip query ≠ [])
    (hmode : cfg.mode ≠ "off".toList) :
    (∃ env, search cfg opens query numResults reply = .ok env ∧ env.count = env.results.length) ↔
      numResults ≠ .infinite ∧ Received (readingsOf cfg) reply ∧
        ∀ raw n, fetched cfg reply = .ok (.ok raw) → requested numResults = .ok n →
          Clean cfg opens query n raw := by
  rw [search, hcfg]
  simp only [if_neg hq, if_neg hmode]
  rw [← requested_ok_iff, ← fetched_ok_iff]
  constructor
  · rintro ⟨env, h, -⟩
    obtain ⟨n, hn, h⟩ := Checks.bind_ok.mp h
    obtain ⟨r, hr, h⟩ := Checks.bind_ok.mp h
    refine ⟨⟨n, hn⟩, ⟨r, hr⟩, fun raw n' hraw hn' => ?_⟩
    cases hr.symm.trans hraw
    cases hn.symm.trans hn'
    exact (report_ok_iff_clean hcfg hmode).mp ⟨env, h⟩
  · rintro ⟨⟨n, hn⟩, ⟨r, hr⟩, hfound⟩
    cases r with
    | error err =>
      obtain ⟨env, henv, hcount⟩ := refusal_ok query (endpointOf cfg) cfg.mode err false
      refine ⟨env, Checks.bind_ok.mpr ⟨n, hn, Checks.bind_ok.mpr ⟨_, hr, ?_⟩⟩, hcount⟩
      exact Checks.bind_ok.mpr ⟨(), audit_ofStr opens err, henv⟩
    | ok raw =>
      obtain ⟨env, henv⟩ := (report_ok_iff_clean hcfg hmode).mpr (hfound raw n hr hn)
      refine ⟨env, Checks.bind_ok.mpr ⟨n, hn, Checks.bind_ok.mpr ⟨_, hr, henv⟩⟩, report_counts henv⟩

/-- `search` returns an envelope that counts its results just when no exception of the request passes its
handlers, and what it hashes and logs has no surrogates. -/
theorem search_answers_iff :
    (∃ env, search cfg opens query numResults reply = .ok env ∧ env.count = env.results.length) ↔
      Answered cfg opens query numResults reply := by
  cases hcfg : cfg.validate with
  | some fatal => exact iff_of_true (search_of_fatal hcfg) (.refused (by simp [hcfg]))
  | none =>
    by_cases hq : strip query = []
    · exact iff_of_true (search_of_blank hcfg hq) (.blank hq)
    · by_cases hmode : cfg.mode = "off".toList
      · rw [search_of_off hcfg hq hmode]
        refine ⟨fun h => .off h.1 hmode h.2, fun h => ?_⟩
        cases h with
        | refused hr => exact absurd hcfg hr
        | blank hb => exact absurd hb hq
        | off hcount _ henc => exact ⟨hcount, henc⟩
        | fetched _ hoff _ _ => exact absurd hmode hoff
      · rw [search_of_fetched hcfg hq hmode]
        refine ⟨fun h => .fetched h.1 hmode h.2.1 h.2.2, fun h => ?_⟩
        cases h with
        | refused hr => exact absurd hcfg hr
        | blank hb => exact absurd hb hq
        | off _ hoff _ => exact absurd hoff hmode
        | fetched hcount _ hreply hfound => exact ⟨hcount, hreply, hfound⟩

end Search

/-- An interpreter with the default limits; it has the texts of the constants and of the integers. -/
@[reducible] def defaultInterpreter : Interpreter where
  room := 990
  valueText
    | .null => some (ofStr "None".toList)
    | .bool b => some (ofStr (if b then "True".toList else "False".toList))
    | .int i => some (ofStr (Json.intText i))
    | _ => none
  maxBodyBytes := 8388608
  arxivIndexUrl := "https://leansearch.net/thm/search".toList
  matlasAiUrl := "https://matlas.ai/api/search".toList

omit [Interpreter] [Tables] in
/-- A search without a cutoff raises from one title with an unpaired surrogate. -/
theorem surrogate_title_raises :
    let _ := asciiTables
    let _ := defaultInterpreter
    let cfg := GateConfig.resolve [] [] []
    let body := RawJson.arr [.obj [(ofStr "title".toList, .str [.inr 0])]]
    ¬ ∃ env, search cfg false (ofStr "sums".toList) (.number 10) (.body body) = .ok env ∧
      env.count = env.results.length := by
  intro _ _ cfg body
  have hraises : (search cfg false (ofStr "sums".toList) (.number 10) (.body body)).toOption.isNone =
      true := by
    decide +kernel
  rintro ⟨env, h, -⟩
  rw [h] at hraises
  cases hraises

end Danus.Integrations.SearchFailures
