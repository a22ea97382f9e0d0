import Danus.Core.TornLines
import Danus.Integrations.GatedSearch
import Danus.Lib.Checks
import Danus.Lib.Machine
import Danus.Strategy.MemoryScan

/-! The spend ledger of consults: one file of JSON lines, which every call reads, checks for its
request id and appends to, and calls that die within their write. -/
namespace Danus.Strategy.Spend
open Python Core Machines

/-- `0.0`, `float(value)`, `+` and `f"{total:.4f}"`, by the platform. -/
structure Floats where
  zero : PyFloat
  ofJson : Json → Option PyFloat
  add : PyFloat → PyFloat → PyFloat
  fixed4 : PyFloat → PyStr

/-- What `log_spend_summary` raises before it writes. -/
inductive Refusal where
  | usage
  | requestId
  | billingBasis
  | unhashable
  | count (label : PyStr)
  | costType
  | costRange
  | recursion
  | notFinite
  | undecodable
  deriving DecidableEq

def Refusal.message : Refusal → PyStr
  | .usage => "usage must be an object or null".toList
  | .requestId => "request_id must be a non-empty string or null".toList
  | .billingBasis => "invalid consult billing_basis".toList
  | .unhashable => "unhashable type".toList
  | .count label => label ++ " must be a non-negative integer or null".toList
  | .costType => "cost_usd must be a non-negative number or null".toList
  | .costRange => "cost_usd must be a finite non-negative number or null".toList
  | .recursion => "maximum recursion depth exceeded".toList
  | .notFinite => "Out of range float values are not JSON compliant".toList
  | .undecodable => "'utf-8' codec can't decode".toList

/-- `float.__lt__(x, 0)` -/
def isNegative (x : PyFloat) : Bool := x.text.head? == some '-' && Integrations.truthy (.float x)

def isFiniteFloat : PyFloat → Bool
  | .finite _ _ => true
  | _ => false

/-- `envelope.get(key)` -/
def field (envelope : List (PyStr × Json)) (key : String) : Json := (envelope.lookup key.toList).getD .null

/-- `_optional_count` -/
def optionalCount (label : String) : Json → Except Refusal Json
  | .null => .ok .null
  | .int i => if i < 0 then .error (.count label.toList) else .ok (.int i)
  | _ => .error (.count label.toList)

/-- `float(value)` of a cost, and its range. -/
def finiteCost (floats : Floats) (value : Json) : Except Refusal Json :=
  match floats.ofJson value with
  | none => .error .costRange
  | some x => if isFiniteFloat x && !isNegative x then .ok (.float x) else .error .costRange

/-- `_optional_cost` -/
def optionalCost (floats : Floats) : Json → Except Refusal Json
  | .null => .ok .null
  | .int i => finiteCost floats (.int i)
  | .float x => finiteCost floats (.float x)
  | _ => .error .costType

def usageOf (value : Json) : Except Refusal (List (PyStr × Json)) :=
  if Integrations.truthy value then
    match value with
    | .obj items => .ok items
    | _ => .error .usage
  else .ok []

def requestIdOf : Json → Except Refusal Json
  | .null => .ok .null
  | .str s => if s = [] then .error .requestId else .ok (.str s)
  | _ => .error .requestId

def billingBases : List PyStr :=
  ["metered_api".toList, "subscription".toList, "subscription_estimate".toList, "disabled".toList]

def billingBasisOf : Json → Except Refusal Json
  | .null => .ok (.str "metered_api".toList)
  | .str s => if s ∈ billingBases then .ok (.str s) else .error .billingBasis
  | .arr _ | .obj _ => .error .unhashable
  | _ => .error .billingBasis

/-- `_record`, at the time it reads. -/
def recordOf (floats : Floats) (tsUtc : PyStr) (envelope : List (PyStr × Json)) : Except Refusal Json := do
  let usage ← usageOf (field envelope "usage")
  let requestId ← requestIdOf (field envelope "request_id")
  let billingBasis ← billingBasisOf (field envelope "billing_basis")
  let inputTokens ← optionalCount "input_tokens" (field usage "input")
  let outputTokens ← optionalCount "output_tokens" (field usage "output")
  let reasoningTokens ← optionalCount "reasoning_tokens" (field usage "reasoning")
  let costUsd ← optionalCost floats (field envelope "cost_usd")
  return .obj [("ts_utc".toList, .str tsUtc), ("request_id".toList, requestId),
    ("transport".toList, field envelope "transport"), ("model".toList, field envelope "model"),
    ("ui_mode".toList, field envelope "ui_mode"), ("effort".toList, field envelope "effort"),
    ("attempt".toList, field envelope "attempt"), ("status".toList, field envelope "status"),
    ("input_tokens".toList, inputTokens), ("output_tokens".toList, outputTokens),
    ("reasoning_tokens".toList, reasoningTokens), ("billing_basis".toList, billingBasis),
    ("cost_usd".toList, costUsd), ("seconds".toList, field envelope "seconds")]

/-- One call, with the time at which it builds its record. -/
structure Call where
  tsUtc : PyStr
  envelope : List (PyStr × Json)
  keys : (Json.obj envelope).distinctKeys = true

/-- The record of a call that `json.dumps` writes. -/
def Call.record (floats : Floats) (py : Interpreter) (call : Call) : Except Refusal Json :=
  match recordOf floats call.tsUtc call.envelope with
  | .error e => .error e
  | .ok record =>
    if py.dumpsDepth < record.nesting then .error .recursion
    else if !record.finiteNumbers then .error .notFinite
    else .ok record

/-- What one line of the ledger counts for. -/
def ledgerItem (line : PyStr) : Option Json :=
  match Json.parse line with
  | some (.obj items) => some (.obj items)
  | _ => none

/-- The records that a call reads; nothing where the file is not UTF-8. -/
def ledgerRecords (file : List Nat) : Option (List Json) :=
  (decodeUtf8 file).map fun text => (fileLines text).filterMap ledgerItem

/-- `record.get("request_id")`, where it is one. -/
def requestId (record : Json) : Option PyStr :=
  match record.get? "request_id".toList with
  | some (.str s) => some s
  | _ => none

def isDuplicate (record : Json) (records : List Json) : Bool :=
  match requestId record with
  | none => false
  | some id => records.any fun item => requestId item == some id

structure Summary where
  projectTotalUsd : PyStr
  meteredTotalUsd : PyStr
  unpricedSubscriptionCalls : Nat

/-- The loop of `_summary`: the total and the unpriced calls so far. -/
def summaryStep (floats : Floats) (acc : PyFloat × Nat) (record : Json) : PyFloat × Nat :=
  match record.get? "cost_usd".toList with
  | none | some .null =>
    match record.get? "billing_basis".toList with
    | some (.str s) => if s = "subscription".toList then (acc.1, acc.2 + 1) else acc
    | _ => acc
  | some cost =>
    match floats.ofJson cost with
    | some x => if isFiniteFloat x && !isNegative x then (floats.add acc.1 x, acc.2) else acc
    | none => acc

/-- `_summary` -/
def summary (floats : Floats) (records : List Json) : Summary :=
  let acc := records.foldl (summaryStep floats) (floats.zero, 0)
  ⟨floats.fixed4 acc.1, floats.fixed4 acc.1, acc.2⟩

/-- `log_spend_summary` on the file: the file after the call, and what it returns. -/
def logSpendSummary (floats : Floats) (py : Interpreter) (file : List Nat) (call : Call) :
    Except Refusal (List Nat × Summary) :=
  match call.record floats py with
  | .error e => .error e
  | .ok record =>
    match ledgerRecords file with
    | none => .error .undecodable
    | some records =>
      if isDuplicate record records then .ok (file, summary floats records)
      else .ok (appendJsonl file record, summary floats (records ++ [record]))

/-- The file after a call of which only so many bytes of its write got there. -/
def cutSpendSummary (floats : Floats) (py : Interpreter) (file : List Nat) (call : Call) (k : Nat) :
    List Nat :=
  match call.record floats py with
  | .error _ => file
  | .ok record =>
    match ledgerRecords file with
    | none => file
    | some records => if isDuplicate record records then file else appendTorn file record k

/-- The file, and the records of the calls that have returned. -/
structure Ledger where
  file : List Nat
  returned : List Json

inductive Label where
  | call (call : Call)
  | cut (call : Call) (k : Nat)

/-- A call of some process, as its lock orders them. -/
inductive Step (floats : Floats) (py : Interpreter) : Ledger → Label → Ledger → Prop where
  | returns {s : Ledger} {call : Call} {record : Json} {file : List Nat} {answer : Summary} :
      call.record floats py = .ok record → logSpendSummary floats py s.file call = .ok (file, answer) →
      Step floats py s (.call call) ⟨file, s.returned ++ [record]⟩
  | raises {s : Ledger} {call : Call} {e : Refusal} : logSpendSummary floats py s.file call = .error e →
      Step floats py s (.call call) s
  | cut {s : Ledger} {call : Call} {k : Nat} :
      Step floats py s (.cut call k) ⟨cutSpendSummary floats py s.file call k, s.returned⟩

def machine (floats : Floats) (py : Interpreter) : Machine Ledger Label where
  start s := s = ⟨[], []⟩
  step := Step floats py

/-- The records of these calls are among those counted: those without a request id one by one, and of
the others their ids. -/
structure Counted (returned records : List Json) : Prop where
  anonymous : List.Sublist (returned.filter fun r => (requestId r).isNone) records
  ids : ∀ r ∈ returned, ∀ id, requestId r = some id → ∃ item ∈ records, requestId item = some id

/-- Each request is recorded once, the calls that returned are counted, and so is every later call, which
returns. -/
structure Sound (floats : Floats) (py : Interpreter) (s : Ledger) : Prop where
  readable : ∃ records, ledgerRecords s.file = some records ∧ (records.filterMap requestId).Nodup ∧
    Counted s.returned records
  returns : ∀ (call : Call) (record : Json), call.record floats py = .ok record →
    ∃ file records, logSpendSummary floats py s.file call = .ok (file, summary floats records) ∧
      ledgerRecords file = some records ∧ Counted (s.returned ++ [record]) records

/-- Nothing of the line reached the file, or all of it. -/
def Label.Whole (floats : Floats) (py : Interpreter) : Label → Prop
  | .call _ => True
  | .cut c k => ∀ record, c.record floats py = .ok record → k = 0 ∨ (entryLine record).length ≤ k

section Run

variable {floats : Floats} {py : Interpreter} {s t : Ledger} {c : Call} {record : Json} {records : List Json}
  {line : PyStr} {label : Label}

theorem field_distinct {envelope : List (PyStr × Json)} (hk : (Json.obj envelope).distinctKeys = true)
    (key : String) : (field envelope key).distinctKeys = true := by
  rw [field]
  cases hl : envelope.lookup key.toList with
  | none => rfl
  | some v => exact ((Json.distinct_obj envelope).mp hk).2 _ (mem_of_lookup_eq_some hl)

theorem optionalCount_distinct {label : String} {v w : Json} (h : optionalCount label v = .ok w) :
    w.distinctKeys = true := by
  unfold optionalCount at h
  split at h
  · cases h
    rfl
  · split at h
    · cases h
    · cases h
      rfl
  · cases h

theorem finiteCost_distinct {v w : Json} (h : finiteCost floats v = .ok w) : w.distinctKeys = true := by
  unfold finiteCost at h
  split at h
  · cases h
  · split at h
    · cases h
      rfl
    · cases h

theorem optionalCost_distinct {v w : Json} (h : optionalCost floats v = .ok w) : w.distinctKeys = true := by
  unfold optionalCost at h
  split at h
  · cases h
    rfl
  · exact finiteCost_distinct h
  · exact finiteCost_distinct h
  · cases h

theorem requestIdOf_distinct {v w : Json} (h : requestIdOf v = .ok w) : w.distinctKeys = true := by
  unfold requestIdOf at h
  split at h
  · cases h
    rfl
  · split at h
    · cases h
    · cases h
      rfl
  · cases h

theorem billingBasisOf_distinct {v w : Json} (h : billingBasisOf v = .ok w) : w.distinctKeys = true := by
  unfold billingBasisOf at h
  split at h
  · cases h
    rfl
  · split at h
    · cases h
      rfl
    · cases h
  · cases h
  · cases h
  · cases h

/-- A record is an object without a key twice. -/
theorem recordOf_spec (hk : (Json.obj c.envelope).distinctKeys = true)
    (h : recordOf floats c.tsUtc c.envelope = .ok record) :
    (∃ items, record = .obj items) ∧ record.distinctKeys = true := by
  have hnames : ["ts_utc".toList, "request_id".toList, "transport".toList, "model".toList, "ui_mode".toList,
      "effort".toList, "attempt".toList, "status".toList, "input_tokens".toList, "output_tokens".toList,
      "reasoning_tokens".toList, "billing_basis".toList, "cost_usd".toList, "seconds".toList].Nodup := by
    decide
  unfold recordOf at h
  obtain ⟨usage, _, h⟩ := Checks.bind_ok.mp h
  obtain ⟨id, hid, h⟩ := Checks.bind_ok.mp h
  obtain ⟨basis, hbasis, h⟩ := Checks.bind_ok.mp h
  obtain ⟨input, hinput, h⟩ := Checks.bind_ok.mp h
  obtain ⟨output, houtput, h⟩ := Checks.bind_ok.mp h
  obtain ⟨reasoning, hreasoning, h⟩ := Checks.bind_ok.mp h
  obtain ⟨cost, hcost, h⟩ := Checks.bind_ok.mp h
  cases h
  refine ⟨⟨_, rfl⟩, (Json.distinct_obj _).mpr ⟨hnames, ?_⟩⟩
  have hget (key : String) : (field c.envelope key).distinctKeys = true := field_distinct hk key
  simp only [List.forall_mem_cons, List.not_mem_nil, false_implies, implies_true, and_true, hget, true_and]
  exact ⟨rfl, requestIdOf_distinct hid, optionalCount_distinct hinput, optionalCount_distinct houtput,
    optionalCount_distinct hreasoning, billingBasisOf_distinct hbasis, optionalCost_distinct hcost⟩

/-- What a call writes can be written, and reads back. -/
structure Recordable (py : Interpreter) (record : Json) : Prop where
  writable : Writable py record
  keys : record.distinctKeys = true

theorem Call.record_spec (h : c.record floats py = .ok record) : Recordable py record := by
  unfold Call.record at h
  split at h
  · cases h
  · rename_i r hr
    split_ifs at h with hdepth hfinite
    cases h
    obtain ⟨hobj, hkeys⟩ := recordOf_spec c.keys hr
    exact ⟨⟨hobj, Nat.le_of_not_lt hdepth⟩, hkeys⟩

theorem ledgerItem_record (hr : Recordable py record) : ledgerItem (lineText record ++ ['\n']) = some record := by
  obtain ⟨items, rfl⟩ := hr.writable.object
  have hparse : Json.parse (lineText (.obj items) ++ ['\n']) = some (.obj items) :=
    Json.parse_dumps false hr.keys (by decide)
  simp only [ledgerItem, hparse]

/-- The items of the lines still to read. -/
def items (text : PyStr) : List Json := (fileLinesFrom [] text).filterMap ledgerItem

theorem items_line (hl : '\n' ∉ line) (rest : PyStr) :
    items (line ++ '\n' :: rest) = (ledgerItem (line ++ ['\n'])).toList ++ items rest := by
  rw [items, fileLinesFrom_line [] hl, List.reverse_nil, List.nil_append, List.filterMap_cons]
  cases ledgerItem (line ++ ['\n']) <;> rfl

theorem items_records (hr : ∀ r ∈ records, Recordable py r) :
    items (records.flatMap fun r => lineText r ++ ['\n']) = records := by
  induction records with
  | nil => rfl
  | cons r records ih =>
    have hno : '\n' ∉ lineText r := notMem_of_printable (printable_lineText r) (by decide)
    have hline : (r :: records).flatMap (fun r => lineText r ++ ['\n']) =
        lineText r ++ '\n' :: records.flatMap fun r => lineText r ++ ['\n'] := by simp
    rw [hline, items_line hno, ledgerItem_record (hr r List.mem_cons_self),
      ih fun r' hm => hr r' (List.mem_cons_of_mem _ hm)]
    rfl

/-- A file of whole lines reads as their records. -/
theorem ledgerRecords_lines (hr : ∀ r ∈ records, Recordable py r) :
    ledgerRecords (records.flatMap entryLine) = some records := by
  rw [ledgerRecords, encode_records, decodeUtf8_encodeUtf8, Option.map_some, fileLines,
    universalNewlines_self (no_return records)]
  exact congrArg some (items_records hr)

theorem flatMap_concat (file : List Nat) (h : file = records.flatMap entryLine) :
    appendJsonl file record = (records ++ [record]).flatMap entryLine := by
  rw [appendJsonl, h, List.flatMap_append, List.flatMap_singleton]

theorem isDuplicate_iff : isDuplicate record records = true ↔
    ∃ id, requestId record = some id ∧ ∃ item ∈ records, requestId item = some id := by
  unfold isDuplicate
  cases requestId record with
  | none => simp
  | some id => simp

theorem Counted.mono {returned more : List Json} (h : Counted returned records) :
    Counted returned (records ++ more) where
  anonymous := h.anonymous.trans (List.sublist_append_left _ _)
  ids := fun r hr id hid => by
    obtain ⟨item, hitem, hi⟩ := h.ids r hr id hid
    exact ⟨item, List.mem_append_left _ hitem, hi⟩

/-- A call that finds its id recorded is counted there. -/
theorem Counted.duplicate {returned : List Json} (h : Counted returned records)
    (hd : isDuplicate record records = true) : Counted (returned ++ [record]) records := by
  obtain ⟨id, hid, item, hitem, hi⟩ := isDuplicate_iff.mp hd
  refine ⟨?_, ?_⟩
  · have hsome : (requestId record).isNone = false := by rw [hid]; rfl
    have hnone : [record].filter (fun r => (requestId r).isNone) = [] := by simp [hsome]
    rw [List.filter_append, hnone, List.append_nil]
    exact h.anonymous
  · intro r hr id' hid'
    rcases List.mem_append.mp hr with hr | hr
    · exact h.ids r hr id' hid'
    · cases List.mem_singleton.mp hr
      rw [hid] at hid'
      cases hid'
      exact ⟨item, hitem, hi⟩

/-- A call that appends its record is counted by it. -/
theorem Counted.append {returned : List Json} (h : Counted returned records) :
    Counted (returned ++ [record]) (records ++ [record]) := by
  refine ⟨?_, ?_⟩
  · rw [List.filter_append]
    exact h.anonymous.append List.filter_sublist
  · intro r hr id hid
    rcases List.mem_append.mp hr with hr | hr
    · exact h.mono.ids r hr id hid
    · cases List.mem_singleton.mp hr
      exact ⟨record, List.mem_append_right _ (List.mem_singleton_self _), hid⟩

theorem nodup_append (hn : (records.filterMap requestId).Nodup) (hd : isDuplicate record records = false) :
    ((records ++ [record]).filterMap requestId).Nodup := by
  cases hid : requestId record with
  | none => simpa [hid] using hn
  | some id =>
    have hfresh : id ∉ records.filterMap requestId := by
      intro hm
      obtain ⟨item, hitem, hi⟩ := List.mem_filterMap.mp hm
      rw [isDuplicate_iff.mpr ⟨id, hid, item, hitem, hi⟩] at hd
      cases hd
    have hlast : [record].filterMap requestId = [id] := by simp [hid]
    rw [List.filterMap_append, hlast]
    exact List.nodup_append.mpr ⟨hn, List.nodup_singleton id, fun a ha b hb hab => hfresh (by
      rwa [hab, List.mem_singleton.mp hb] at ha)⟩

/-- The file is the lines of records, each request once, the calls that returned among them. -/
structure Inv (py : Interpreter) (s : Ledger) (records : List Json) : Prop where
  file : s.file = records.flatMap entryLine
  recordable : ∀ r ∈ records, Recordable py r
  once : (records.filterMap requestId).Nodup
  counted : Counted s.returned records

theorem Inv.read (h : Inv py s records) : ledgerRecords s.file = some records := by
  rw [h.file]
  exact ledgerRecords_lines h.recordable

theorem recordable_append (h : Inv py s records) (hr : Recordable py record) :
    ∀ r ∈ records ++ [record], Recordable py r := by
  intro r hm
  rcases List.mem_append.mp hm with hm | hm
  · exact h.recordable r hm
  · rw [List.mem_singleton.mp hm]
    exact hr

/-- One call on such a file: it returns, and the file is one again. -/
theorem Inv.call (h : Inv py s records) (hrec : c.record floats py = .ok record) :
    ∃ file records', logSpendSummary floats py s.file c = .ok (file, summary floats records') ∧
      Inv py ⟨file, s.returned ++ [record]⟩ records' := by
  have hr := Call.record_spec hrec
  cases hd : isDuplicate record records with
  | true =>
    refine ⟨s.file, records, ?_, h.file, h.recordable, h.once, h.counted.duplicate hd⟩
    simp only [logSpendSummary, hrec, h.read, hd, if_true]
  | false =>
    refine ⟨appendJsonl s.file record, records ++ [record], ?_, flatMap_concat s.file h.file,
      recordable_append h hr, nodup_append h.once hd, h.counted.append⟩
    simp only [logSpendSummary, hrec, h.read, hd, Bool.false_eq_true, if_false]

theorem Inv.sound (h : Inv py s records) : Sound floats py s where
  readable := ⟨records, h.read, h.once, h.counted⟩
  returns := fun c record hrec => by
    obtain ⟨file, records', hlog, hinv⟩ := h.call hrec
    exact ⟨file, records', hlog, hinv.read, hinv.counted⟩

/-- A call that was cut where nothing or all of its line reached the file. -/
theorem Inv.cut (h : Inv py s records) {k : Nat} (hw : (Label.cut c k).Whole floats py) :
    ∃ records', Inv py ⟨cutSpendSummary floats py s.file c k, s.returned⟩ records' := by
  cases hrec : c.record floats py with
  | error e =>
    simp only [cutSpendSummary, hrec]
    exact ⟨records, h⟩
  | ok record =>
    have hr := Call.record_spec hrec
    cases hd : isDuplicate record records with
    | true =>
      simp only [cutSpendSummary, hrec, h.read, hd, if_true]
      exact ⟨records, h⟩
    | false =>
      simp only [cutSpendSummary, hrec, h.read, hd, Bool.false_eq_true, if_false]
      rcases hw record hrec with rfl | hk
      · refine ⟨records, ?_, h.recordable, h.once, h.counted⟩
        simp [appendTorn, h.file]
      · refine ⟨records ++ [record], ?_, recordable_append h hr, nodup_append h.once hd, h.counted.mono⟩
        simp [appendTorn, h.file, List.take_of_length_le hk]

theorem inv_step (hw : label.Whole floats py) (hs : Step floats py s label t)
    (h : ∃ records, Inv py s records) : ∃ records, Inv py t records := by
  obtain ⟨records, h⟩ := h
  cases hs with
  | returns hrec hlog =>
    obtain ⟨file', records', hlog', hinv⟩ := h.call hrec
    rw [hlog'] at hlog
    cases hlog
    exact ⟨records', hinv⟩
  | raises _ => exact ⟨records, h⟩
  | cut => exact h.cut hw

/-- In every run whose cuts leave nothing of a line or all of it, each request is recorded once, every call
returns, and the calls that returned stay counted. -/
theorem ledger_sound (h : (machine floats py).Reaches (fun _ label => label.Whole floats py) s) :
    Sound floats py s := by
  have hinv : ∃ records, Inv py s records := by
    refine Machine.Reaches.invariant (I := fun s => ∃ records, Inv py s records) (fun s h0 => ?_)
      (fun s past label t hs hw ht => inv_step hw ht hs) h
    cases h0
    exact ⟨[], rfl, by simp, List.nodup_nil, ⟨List.Sublist.slnil, by simp⟩⟩
  obtain ⟨records, hinv⟩ := hinv
  exact hinv.sound

end Run

section Torn

/-- Enough arithmetic for calls without a price. -/
def noFloats : Floats := ⟨.nan, fun _ => none, fun x _ => x, PyFloat.text⟩

def depth : Interpreter := ⟨1000, 1000⟩

/-- A call with a model. -/
def sample (model : PyStr) : Call where
  tsUtc := "2025-01-01T00:00:00+00:00".toList
  envelope := [("model".toList, .str model)]
  keys := rfl

def sampleRecord (model : PyStr) : Json :=
  .obj [("ts_utc".toList, .str "2025-01-01T00:00:00+00:00".toList), ("request_id".toList, .null),
    ("transport".toList, .null), ("model".toList, .str model), ("ui_mode".toList, .null),
    ("effort".toList, .null), ("attempt".toList, .null), ("status".toList, .null),
    ("input_tokens".toList, .null), ("output_tokens".toList, .null), ("reasoning_tokens".toList, .null),
    ("billing_basis".toList, .str "metered_api".toList), ("cost_usd".toList, .null), ("seconds".toList, .null)]

theorem sample_record (model : PyStr) : (sample model).record noFloats depth = .ok (sampleRecord model) := by
  have hrec : recordOf noFloats (sample model).tsUtc (sample model).envelope = .ok (sampleRecord model) := rfl
  have hnest : ¬ depth.dumpsDepth < (sampleRecord model).nesting := by
    have h : (sampleRecord model).nesting = 1 := rfl
    rw [h]
    decide
  have hfinite : (sampleRecord model).finiteNumbers = true := rfl
  simp only [Call.record, hrec, if_neg hnest, hfinite, Bool.not_true, Bool.false_eq_true, if_false]

theorem cutSpendSummary_sample (model : PyStr) (k : Nat) :
    cutSpendSummary noFloats depth [] (sample model) k = (entryLine (sampleRecord model)).take k := by
  have hempty : ledgerRecords [] = some [] := rfl
  have hnew : isDuplicate (sampleRecord model) [] = false := rfl
  simp only [cutSpendSummary, sample_record, hempty, hnew, Bool.false_eq_true, if_false, appendTorn,
    List.nil_append]

theorem logSpendSummary_sample {file : List Nat} (hf : ledgerRecords file = some []) (model : PyStr) :
    logSpendSummary noFloats depth file (sample model) =
      .ok (appendJsonl file (sampleRecord model), summary noFloats [sampleRecord model]) := by
  have hnew : isDuplicate (sampleRecord model) [] = false := rfl
  simp only [logSpendSummary, sample_record, hf, hnew, Bool.false_eq_true, if_false, List.nil_append]

/-- A call that died before its write, and one that returned. -/
theorem ledger_sound_after_death :
    Sound noFloats depth ⟨appendJsonl [] (sampleRecord ['b']), [sampleRecord ['b']]⟩ := by
  have hcut : Step noFloats depth ⟨[], []⟩ (.cut (sample ['a']) 0) ⟨[], []⟩ := by
    have h : Step noFloats depth ⟨[], []⟩ (.cut (sample ['a']) 0) _ := .cut
    rwa [cutSpendSummary_sample] at h
  have hcall : Step noFloats depth ⟨[], []⟩ (.call (sample ['b'])) _ :=
    .returns (sample_record ['b']) (logSpendSummary_sample rfl ['b'])
  have hwhole : (Label.cut (sample ['a']) 0).Whole noFloats depth := fun record _ => .inl rfl
  have hwhole' : (Label.call (sample ['b'])).Whole noFloats depth := trivial
  exact ledger_sound ⟨[⟨[], []⟩, ⟨[], []⟩], .step (.step (.start rfl) hwhole hcut) hwhole' hcall⟩

theorem sample_recordable (model : PyStr) : Recordable depth (sampleRecord model) :=
  Call.record_spec (sample_record model)

/-- One byte of a line, and the next line after it: both are lost. -/
theorem ledgerRecords_torn (model : PyStr) :
    ledgerRecords (appendJsonl [123] (sampleRecord model)) = some [] := by
  have hno : '\n' ∉ '\x7b' :: lineText (sampleRecord model) := by
    rw [List.mem_cons, not_or]
    exact ⟨by decide, notMem_of_printable (printable_lineText _) (by decide)⟩
  have hret : '\r' ∉ '\x7b' :: lineText (sampleRecord model) ++ ['\n'] := by
    rw [List.mem_append, List.mem_cons, not_or, not_or]
    exact ⟨⟨by decide, notMem_of_printable (printable_lineText _) (by decide)⟩, by decide⟩
  have hnone : ledgerItem ('\x7b' :: lineText (sampleRecord model) ++ ['\n']) = none := by
    obtain ⟨items, hitems⟩ := (sample_recordable model).writable.object
    have hpart : [123] <+: encodeUtf8 (Json.dumps (Json.spaced false false) (.obj [])) := ⟨[125], rfl⟩
    have hparse : Json.parse ('\x7b' :: lineText (sampleRecord model) ++ ['\n']) = none := by
      rw [hitems]
      exact Json.loads_torn neutral_newline neutral_separators.1 neutral_separators.2 hpart
        (List.cons_ne_nil _ _) (by decide) rfl
    simp only [ledgerItem, hparse]
  have hfile : appendJsonl [123] (sampleRecord model) =
      encodeUtf8 ('\x7b' :: lineText (sampleRecord model) ++ ['\n']) := rfl
  rw [ledgerRecords, hfile, decodeUtf8_encodeUtf8, Option.map_some, fileLines, universalNewlines_self hret]
  have hline := items_line hno []
  rw [hnone] at hline
  exact congrArg some hline

/-- A call is cut after its first byte, the next one returns, and is counted no more; a call is cut within
a character, and the next one raises. -/
theorem torn_write_breaks_ledger :
    (∃ s t, Step noFloats depth ⟨[], []⟩ (.cut (sample ['a']) 1) s ∧
      Step noFloats depth s (.call (sample ['b'])) t ∧ ¬ Sound noFloats depth t) ∧
    ∃ s, Step noFloats depth ⟨[], []⟩ (.cut (sample ['é']) 90) s ∧
      logSpendSummary noFloats depth s.file (sample ['b']) = .error .undecodable := by
  refine ⟨⟨⟨[123], []⟩, ⟨appendJsonl [123] (sampleRecord ['b']), [sampleRecord ['b']]⟩, ?_, ?_, ?_⟩, ?_⟩
  · have hstep : Step noFloats depth ⟨[], []⟩ (.cut (sample ['a']) 1) _ := .cut
    rwa [cutSpendSummary_sample] at hstep
  · have hread : ledgerRecords [123] = some [] := by
      have hparse : Json.parse ['\x7b'] = none := Option.isNone_iff_eq_none.mp (by decide +kernel)
      have hitem : ledgerItem ['\x7b'] = none := by simp only [ledgerItem, hparse]
      have hlines : fileLines ['\x7b'] = [['\x7b']] := by decide
      have hdecode : decodeUtf8 [123] = some ['\x7b'] := by decide
      rw [ledgerRecords, hdecode, Option.map_some, hlines, List.filterMap_cons, hitem]
      rfl
    exact .returns (sample_record ['b']) (logSpendSummary_sample hread ['b'])
  · intro hsound
    obtain ⟨records, hread, _, hcounted⟩ := hsound.readable
    rw [ledgerRecords_torn] at hread
    cases hread
    have h := hcounted.anonymous.length_le
    exact absurd h (by decide)
  · refine ⟨_, .cut, ?_⟩
    have hbad : ledgerRecords ((entryLine (sampleRecord ['é'])).take 90) = none := by
      have h : decodeUtf8 ((entryLine (sampleRecord ['é'])).take 90) = none := by decide +kernel
      rw [ledgerRecords, h]
      rfl
    simp only [logSpendSummary, sample_record, cutSpendSummary_sample, hbad]

end Torn

end Danus.Strategy.Spend
