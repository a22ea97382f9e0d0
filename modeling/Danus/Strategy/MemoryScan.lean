import Danus.Core.Retrieval
import Danus.Lib.JsonSorted
import Danus.Lib.Lines
import Danus.Strategy.BrowserAdvisor

/-! The scan of global memory before a completion is recorded, and the check of the gateway before an
append that the scan later reads. -/
namespace Danus.Strategy
open Python Core

def maxDurableScanNodes : Nat := 100000

def maxDurableScanDepth : Nat := 64

def maxGlobalMemoryLineBytes : Nat := 16 * 1024 * 1024

/-- Why `_durable_string_digests` stops; a value that came from JSON has no cycle. -/
inductive ScanLimit where
  | nodes | nesting
  deriving DecidableEq

def ScanLimit.message : ScanLimit → String
  | .nodes => "durable global-memory payload exceeds scan node limit"
  | .nesting => "durable global-memory payload exceeds nesting limit"

/-- The nodes counted so far, and the output: labels with digests. -/
structure Collected where
  nodes : Nat
  output : List (PyStr × PyStr)

namespace Collected

def digests (c : Collected) : List PyStr := c.output.map Prod.snd

/-- How `collect` begins at every value. -/
def visit (c : Collected) (depth : Nat) : Except ScanLimit Collected :=
  if maxDurableScanNodes < c.nodes + 1 then .error .nodes
  else if maxDurableScanDepth < depth then .error .nesting
  else .ok { c with nodes := c.nodes + 1 }

/-- `collect` at a string. -/
def text (c : Collected) (label s : PyStr) (depth : Nat) : Except ScanLimit Collected :=
  (c.visit depth).map fun c => { c with output := c.output ++ [(label, sha256Text s)] }

end Collected

/-- `{label}{part}[{index}]` -/
def partLabel (label part : PyStr) (index : Nat) : PyStr :=
  label ++ part ++ '[' :: natText index ++ [']']

mutual
/-- `collect` -/
def collect : Json → PyStr → Nat → Collected → Except ScanLimit Collected
  | .str s, label, depth, c => c.text label s depth
  | .arr items, label, depth, c =>
    (c.visit depth).bind fun c => collectItems items label 0 (depth + 1) c
  | .obj items, label, depth, c =>
    (c.visit depth).bind fun c => collectFields items label 0 (depth + 1) c
  | .null, _, depth, c | .bool _, _, depth, c | .int _, _, depth, c | .float _, _, depth, c =>
    c.visit depth

/-- The loop over a list, from an index on. -/
def collectItems : List Json → PyStr → Nat → Nat → Collected → Except ScanLimit Collected
  | [], _, _, _, c => .ok c
  | v :: vs, label, index, depth, c =>
    (collect v (partLabel label [] index) depth c).bind fun c =>
      collectItems vs label (index + 1) depth c

/-- The loop over a dictionary, whose keys are strings, from an index on. -/
def collectFields : List (PyStr × Json) → PyStr → Nat → Nat → Collected → Except ScanLimit Collected
  | [], _, _, _, c => .ok c
  | (k, v) :: kvs, label, index, depth, c =>
    (c.text (partLabel label ".key".toList index) k depth).bind fun c =>
      (collect v (partLabel label ".value".toList index) depth c).bind fun c =>
        collectFields kvs label (index + 1) depth c
end

/-- The outer loop of `_durable_string_digests`. -/
def collectAll : List (PyStr × Json) → Collected → Except ScanLimit Collected
  | [], c => .ok c
  | (field, value) :: fields, c => (collect value field 0 c).bind fun c => collectAll fields c

/-- `_durable_string_digests` -/
def durableStringDigests (fields : List (PyStr × Json)) : Except ScanLimit (List (PyStr × PyStr)) :=
  (collectAll fields ⟨0, []⟩).map Collected.output

/-- What the scan of global memory raises. -/
inductive ScanError where
  | longRecord | badUtf8 | invalidJson | notObject
  | limit (reason : ScanLimit)
  | alreadyDurable
  deriving DecidableEq

/-- As the broker raises it. -/
def ScanError.refusal : ScanError → Refusal
  | .longRecord => .advisor "global-memory record exceeds browser-output scan limit"
  | .badUtf8 => .advisor "global-memory channel is not valid UTF-8"
  | .invalidJson => .advisor "global-memory channel contains invalid JSON"
  | .notObject => .advisor "global-memory channel contains a non-object record"
  | .limit reason => .advisor reason.message
  | .alreadyDurable => .conflict "browser output already exists in durable global memory"

/-- One line of a channel, for one digest. -/
def scanLine (py : Interpreter) (digest : PyStr) (line : List Nat) : Except ScanError Unit :=
  match decodeUtf8 line with
  | none => .error .badUtf8
  | some text =>
    if strip text = [] then .ok ()
    else
      match Json.loads Json.plainHooks py.loadsDepth (strip text) with
      | none => .error .invalidJson
      | some (.obj items) =>
        match durableStringDigests [("record".toList, .obj items)] with
        | .error reason => .error (.limit reason)
        | .ok found =>
          if digest ∈ found.map Prod.snd then .error .alreadyDurable else .ok ()
      | some _ => .error .notObject

/-- The lines of a channel; the number bounds the lines still to read. -/
def scanLines (py : Interpreter) (digest : PyStr) : Nat → List Nat → Except ScanError Unit
  | 0, _ => .ok ()
  | n + 1, bytes =>
    let line := (readline (maxGlobalMemoryLineBytes + 1) bytes).1
    let rest := (readline (maxGlobalMemoryLineBytes + 1) bytes).2
    if line = [] then .ok ()
    else if maxGlobalMemoryLineBytes < line.length then .error .longRecord
    else (scanLine py digest line).bind fun _ => scanLines py digest n rest

/-- The channels, in the order of their names. -/
def scanOrder : List Kind := [.advisorCheckpoint, .conclusion, .counterexample, .deadEnd, .direction,
  .elaboration, .example, .masterGuidance, .obstacle, .plan, .proofAttempt, .verification]

example : (Json.sortByKey (Kind.all.map fun k => (k.name, k))).map Prod.snd =
    scanOrder := by
  decide +kernel

def scanChannels (py : Interpreter) (channels : Kind → List Nat) (digest : PyStr) :
    List Kind → Except ScanError Unit
  | [] => .ok ()
  | kind :: kinds =>
    (scanLines py digest ((channels kind).length + 1) (channels kind)).bind fun _ =>
      scanChannels py channels digest kinds

/-- `_assert_digest_absent_from_global_memory` -/
def assertDigestAbsentFromGlobalMemory (py : Interpreter) (channels : Kind → List Nat)
    (digest : PyStr) : Except Refusal Unit := do
  validateHash digest "browser output hash"
  match scanChannels py channels digest scanOrder with
  | .error e => .error e.refusal
  | .ok _ => .ok ()

section Gateway

/-- Where the gateway appends from. -/
inductive Seam where
  | gmAdd (browserAdopted : Bool)
  | guarded
  deriving DecidableEq

/-- An append through the gateway: the arguments are Python dictionaries, so no key comes twice. -/
structure GatewayAppend where
  seam : Seam
  call : AppendCall
  /-- The reply digests that the ledger holds at that time. -/
  stored : List PyStr
  ts : PyStr
  links_keys : (Json.obj (call.links.getD [])).distinctKeys = true
  glossary_keys : (Json.obj (call.glossary.getD [])).distinctKeys = true
  extra_values : ∀ kv ∈ call.extra, kv.2.distinctKeys = true

def ofDict? : Option (List (PyStr × Json)) → Json
  | some items => .obj items
  | none => .null

/-- `raw_fence_fields` and `durable_fields` -/
def GatewayAppend.fields (g : GatewayAppend) : List (PyStr × Json) :=
  let kind := ("kind".toList, .str g.call.kind)
  let claim := ("claim".toList, .str g.call.claim)
  let evidence := ("evidence".toList, .str g.call.evidence)
  let author := ("author".toList, .str g.call.author)
  let glossary := ("glossary".toList, ofDict? g.call.glossary)
  let links := ("links".toList, ofDict? g.call.links)
  match g.seam with
  | .gmAdd true => [kind, claim, glossary, links, author] ++ g.call.extra
  | .gmAdd false => [kind, claim, glossary, links, author] ++ g.call.extra ++ [evidence]
  | .guarded => [kind, claim, evidence, author, glossary, links] ++ g.call.extra

/-- What an append through the gateway raises. -/
inductive AppendRefusal where
  | limit (reason : ScanLimit)
  | rawOutput (labels : List PyStr)
  | memory (reason : GmError)

/-- `reject_raw_project_text_locked` -/
def rejectRawProjectTextLocked (stored : List PyStr) (fields : List (PyStr × Json)) :
    Except AppendRefusal Unit :=
  match durableStringDigests fields with
  | .error reason => .error (.limit reason)
  | .ok digests =>
    let labels := (digests.filter fun d => d.2 ∈ stored).map Prod.fst
    if labels = [] then .ok ()
    else .error (.rawOutput ((Json.sortByKey (labels.map fun label => (label, ()))).map Prod.fst))

/-- `_append_global_memory_guarded`, and what `gm_add` does for a new record. -/
def gatewayAppend (py : Interpreter) (m : GlobalMemory) (g : GatewayAppend) :
    Except AppendRefusal GlobalMemory :=
  match rejectRawProjectTextLocked g.stored g.fields with
  | .error e => .error e
  | .ok _ =>
    match m.append py g.call g.ts with
    | .error e => .error (.memory e)
    | .ok r => .ok r.2

/-- One append after another; one that raises writes nothing. -/
def gatewayRun (py : Interpreter) (appends : List GatewayAppend) : GlobalMemory :=
  appends.foldl (fun m g => match gatewayAppend py m g with
    | .ok m' => m'
    | .error _ => m) .empty

end Gateway

section Measures

mutual
/-- How many nodes `collect` counts in a value. -/
def scanNodes : Json → Nat
  | .arr items => scanNodesItems items + 1
  | .obj items => scanNodesFields items + 1
  | _ => 1

def scanNodesItems : List Json → Nat
  | [] => 0
  | v :: vs => scanNodes v + scanNodesItems vs

def scanNodesFields : List (PyStr × Json) → Nat
  | [] => 0
  | (_, v) :: kvs => 1 + scanNodes v + scanNodesFields kvs
end

mutual
/-- How far below a value its deepest node is. -/
def scanHeight : Json → Nat
  | .arr items => scanHeightItems items
  | .obj items => scanHeightFields items
  | _ => 0

def scanHeightItems : List Json → Nat
  | [] => 0
  | v :: vs => max (scanHeight v + 1) (scanHeightItems vs)

def scanHeightFields : List (PyStr × Json) → Nat
  | [] => 0
  | (_, v) :: kvs => max (scanHeight v + 1) (scanHeightFields kvs)
end

mutual
/-- The strings in a value, keys included. -/
def scanTexts : Json → List PyStr
  | .str s => [s]
  | .arr items => scanTextsItems items
  | .obj items => scanTextsFields items
  | _ => []

def scanTextsItems : List Json → List PyStr
  | [] => []
  | v :: vs => scanTexts v ++ scanTextsItems vs

def scanTextsFields : List (PyStr × Json) → List PyStr
  | [] => []
  | (k, v) :: kvs => k :: scanTexts v ++ scanTextsFields kvs
end

/-- The digests of the strings in a value. -/
def scanDigests (v : Json) : List PyStr := (scanTexts v).map sha256Text

end Measures

section Walk

/-- From one count to a later one: the nodes and the digests of the strings between them. -/
structure Walked (c c' : Collected) (n : Nat) (texts : List PyStr) : Prop where
  nodes : c'.nodes = c.nodes + n
  digests : c'.digests = c.digests ++ texts.map sha256Text
  fits : c.nodes ≤ maxDurableScanNodes → c'.nodes ≤ maxDurableScanNodes

variable {c c' c'' : Collected} {label s : PyStr} {depth index : Nat}

theorem Walked.refl (c : Collected) : Walked c c 0 [] := ⟨rfl, by simp, id⟩

theorem Walked.trans {n m : Nat} {ss ts : List PyStr} (h : Walked c c' n ss)
    (h' : Walked c' c'' m ts) : Walked c c'' (n + m) (ss ++ ts) where
  nodes := by rw [h'.nodes, h.nodes, Nat.add_assoc]
  digests := by rw [h'.digests, h.digests, List.map_append, List.append_assoc]
  fits hc := h'.fits (h.fits hc)

theorem visit_walked (h : c.visit depth = .ok c') :
    Walked c c' 1 [] ∧ depth ≤ maxDurableScanDepth := by
  unfold Collected.visit at h
  split_ifs at h with hn hd
  cases h
  exact ⟨⟨rfl, by simp [Collected.digests], fun _ => Nat.not_lt.mp hn⟩, Nat.not_lt.mp hd⟩

theorem visit_fits (hn : c.nodes + 1 ≤ maxDurableScanNodes) (hd : depth ≤ maxDurableScanDepth) :
    c.visit depth = .ok { c with nodes := c.nodes + 1 } := by
  rw [Collected.visit, if_neg (by omega), if_neg (by omega)]

theorem text_walked (h : c.text label s depth = .ok c') :
    Walked c c' 1 [s] ∧ depth ≤ maxDurableScanDepth := by
  unfold Collected.text at h
  cases hv : c.visit depth with
  | error e => rw [hv] at h; cases h
  | ok d =>
    rw [hv] at h
    cases h
    obtain ⟨hw, hd⟩ := visit_walked hv
    refine ⟨⟨hw.nodes, ?_, hw.fits⟩, hd⟩
    have hdig := hw.digests
    simp only [Collected.digests, List.map_nil, List.append_nil] at hdig
    simp [Collected.digests, hdig]

theorem text_fits (hn : c.nodes + 1 ≤ maxDurableScanNodes) (hd : depth ≤ maxDurableScanDepth) :
    ∃ c', c.text label s depth = .ok c' := by
  rw [Collected.text, visit_fits hn hd]
  exact ⟨_, rfl⟩

/-- A step that went through, and the next one. -/
theorem bind_ok {α β : Type} {x : Except ScanLimit α} {f : α → Except ScanLimit β} {r : β}
    (h : x.bind f = .ok r) : ∃ a, x = .ok a ∧ f a = .ok r := by
  cases x with
  | error e => cases h
  | ok a => exact ⟨a, rfl, h⟩

mutual
/-- A value that was collected is counted as a whole, within the limits. -/
theorem collect_walked : ∀ (v : Json) (label : PyStr) (depth : Nat) (c c' : Collected),
    collect v label depth c = .ok c' →
      Walked c c' (scanNodes v) (scanTexts v) ∧ depth + scanHeight v ≤ maxDurableScanDepth
  | .null, _, _, _, _, h => visit_walked h
  | .bool _, _, _, _, _, h => visit_walked h
  | .int _, _, _, _, _, h => visit_walked h
  | .float _, _, _, _, _, h => visit_walked h
  | .str _, _, _, _, _, h => text_walked h
  | .arr items, label, depth, c, c', h => by
    obtain ⟨d, hv, hi⟩ := bind_ok h
    obtain ⟨hw, hd⟩ := visit_walked hv
    obtain ⟨hw', hd'⟩ := collectItems_walked items label 0 (depth + 1) d c' hi
    refine ⟨?_, ?_⟩
    · rw [scanNodes, Nat.add_comm]
      exact hw.trans hw'
    · rw [scanHeight]
      have := hd' (by omega)
      omega
  | .obj items, label, depth, c, c', h => by
    obtain ⟨d, hv, hi⟩ := bind_ok h
    obtain ⟨hw, hd⟩ := visit_walked hv
    obtain ⟨hw', hd'⟩ := collectFields_walked items label 0 (depth + 1) d c' hi
    refine ⟨?_, ?_⟩
    · rw [scanNodes, Nat.add_comm]
      exact hw.trans hw'
    · rw [scanHeight]
      have := hd' (by omega)
      omega

theorem collectItems_walked : ∀ (vs : List Json) (label : PyStr) (index depth : Nat)
    (c c' : Collected), collectItems vs label index depth c = .ok c' →
      Walked c c' (scanNodesItems vs) (scanTextsItems vs) ∧
        (depth ≤ maxDurableScanDepth + 1 → depth + scanHeightItems vs ≤ maxDurableScanDepth + 1)
  | [], _, _, _, c, _, h => by
    cases h
    exact ⟨Walked.refl c, id⟩
  | v :: vs, label, index, depth, c, c', h => by
    obtain ⟨d, hv, hi⟩ := bind_ok h
    obtain ⟨hw, hd⟩ := collect_walked v _ depth c d hv
    obtain ⟨hw', hd'⟩ := collectItems_walked vs label (index + 1) depth d c' hi
    refine ⟨hw.trans hw', fun hle => ?_⟩
    have := hd' hle
    rw [scanHeightItems]
    omega

theorem collectFields_walked : ∀ (kvs : List (PyStr × Json)) (label : PyStr) (index depth : Nat)
    (c c' : Collected), collectFields kvs label index depth c = .ok c' →
      Walked c c' (scanNodesFields kvs) (scanTextsFields kvs) ∧
        (depth ≤ maxDurableScanDepth + 1 → depth + scanHeightFields kvs ≤ maxDurableScanDepth + 1)
  | [], _, _, _, c, _, h => by
    cases h
    exact ⟨Walked.refl c, id⟩
  | (k, v) :: kvs, label, index, depth, c, c', h => by
    obtain ⟨b, hk, hrest⟩ := bind_ok h
    obtain ⟨d, hv, hi⟩ := bind_ok hrest
    obtain ⟨hwk, -⟩ := text_walked hk
    obtain ⟨hw, hd⟩ := collect_walked v _ depth b d hv
    obtain ⟨hw', hd'⟩ := collectFields_walked kvs label (index + 1) depth d c' hi
    refine ⟨(hwk.trans hw).trans hw', fun hle => ?_⟩
    have := hd' hle
    rw [scanHeightFields]
    omega
end

mutual
/-- A value within the limits is collected. -/
theorem collect_fits : ∀ (v : Json) (label : PyStr) (depth : Nat) (c : Collected),
    c.nodes + scanNodes v ≤ maxDurableScanNodes → depth + scanHeight v ≤ maxDurableScanDepth →
      ∃ c', collect v label depth c = .ok c'
  | .null, _, _, _, hn, hd => ⟨_, visit_fits hn hd⟩
  | .bool _, _, _, _, hn, hd => ⟨_, visit_fits hn hd⟩
  | .int _, _, _, _, hn, hd => ⟨_, visit_fits hn hd⟩
  | .float _, _, _, _, hn, hd => ⟨_, visit_fits hn hd⟩
  | .str _, _, _, _, hn, hd => text_fits hn hd
  | .arr items, label, depth, c, hn, hd => by
    rw [scanNodes] at hn
    rw [scanHeight] at hd
    rw [collect, visit_fits (by omega) (by omega)]
    exact collectItems_fits items label 0 (depth + 1) _ (by simp only; omega) (by omega)
  | .obj items, label, depth, c, hn, hd => by
    rw [scanNodes] at hn
    rw [scanHeight] at hd
    rw [collect, visit_fits (by omega) (by omega)]
    exact collectFields_fits items label 0 (depth + 1) _ (by simp only; omega) (by omega)

theorem collectItems_fits : ∀ (vs : List Json) (label : PyStr) (index depth : Nat) (c : Collected),
    c.nodes + scanNodesItems vs ≤ maxDurableScanNodes →
      depth + scanHeightItems vs ≤ maxDurableScanDepth + 1 →
        ∃ c', collectItems vs label index depth c = .ok c'
  | [], _, _, _, c, _, _ => ⟨c, rfl⟩
  | v :: vs, label, index, depth, c, hn, hd => by
    rw [scanNodesItems] at hn
    rw [scanHeightItems] at hd
    obtain ⟨d, hv⟩ := collect_fits v (partLabel label [] index) depth c (by omega) (by omega)
    have hw := (collect_walked v _ depth c d hv).1.nodes
    rw [collectItems, hv]
    exact collectItems_fits vs label (index + 1) depth d (by omega) (by omega)

theorem collectFields_fits : ∀ (kvs : List (PyStr × Json)) (label : PyStr) (index depth : Nat)
    (c : Collected), c.nodes + scanNodesFields kvs ≤ maxDurableScanNodes →
      depth + scanHeightFields kvs ≤ maxDurableScanDepth + 1 →
        ∃ c', collectFields kvs label index depth c = .ok c'
  | [], _, _, _, c, _, _ => ⟨c, rfl⟩
  | (k, v) :: kvs, label, index, depth, c, hn, hd => by
    rw [scanNodesFields] at hn
    rw [scanHeightFields] at hd
    obtain ⟨b, hk⟩ : ∃ b, c.text (partLabel label ".key".toList index) k depth = .ok b :=
      text_fits (by omega) (by omega)
    have hwk := (text_walked hk).1.nodes
    obtain ⟨d, hv⟩ := collect_fits v (partLabel label ".value".toList index) depth b (by omega)
      (by omega)
    have hw := (collect_walked v _ depth b d hv).1.nodes
    rw [collectFields, hk, Except.bind, hv]
    exact collectFields_fits kvs label (index + 1) depth d (by omega) (by omega)
end

/-- One value goes through just within the limits, and then every string in it is among the digests. -/
theorem durableStringDigests_single (field : PyStr) (v : Json) :
    (scanNodes v ≤ maxDurableScanNodes ∧ scanHeight v ≤ maxDurableScanDepth →
      ∃ found, durableStringDigests [(field, v)] = .ok found ∧ found.map Prod.snd = scanDigests v) ∧
    (¬ (scanNodes v ≤ maxDurableScanNodes ∧ scanHeight v ≤ maxDurableScanDepth) →
      ∃ reason, durableStringDigests [(field, v)] = .error reason) := by
  have hall : durableStringDigests [(field, v)] =
      (collect v field 0 ⟨0, []⟩).map Collected.output := by
    rw [durableStringDigests, collectAll]
    cases collect v field 0 ⟨0, []⟩ <;> rfl
  rw [hall]
  constructor
  · rintro ⟨hn, hd⟩
    obtain ⟨c, hc⟩ := collect_fits v field 0 ⟨0, []⟩ (by simpa using hn) (by simpa using hd)
    rw [hc]
    have hdigests := (collect_walked v field 0 _ c hc).1.digests
    exact ⟨_, rfl, by simpa [Collected.digests, scanDigests] using hdigests⟩
  · intro hnot
    cases hc : collect v field 0 ⟨0, []⟩ with
    | error e => exact ⟨e, rfl⟩
    | ok c =>
      obtain ⟨hw, hd⟩ := collect_walked v field 0 _ c hc
      have hn := hw.fits (Nat.zero_le _)
      rw [hw.nodes] at hn
      exact (hnot ⟨by simpa using hn, by simpa using hd⟩).elim

/-- Fields within the limits are collected. -/
theorem collectAll_fits (fields : List (PyStr × Json)) (c : Collected)
    (hn : c.nodes + (fields.map fun f => scanNodes f.2).sum ≤ maxDurableScanNodes)
    (hd : ∀ f ∈ fields, scanHeight f.2 ≤ maxDurableScanDepth) : ∃ c', collectAll fields c = .ok c' := by
  induction fields generalizing c with
  | nil => exact ⟨c, rfl⟩
  | cons f fields ih =>
    rw [List.map_cons, List.sum_cons] at hn
    obtain ⟨d, hv⟩ := collect_fits f.2 f.1 0 c (by omega)
      (by simpa using hd f List.mem_cons_self)
    have hw := (collect_walked f.2 f.1 0 c d hv).1.nodes
    rw [collectAll, hv]
    exact ih d (by omega) fun f' hf' => hd f' (List.mem_cons_of_mem _ hf')

/-- Before any reply is recorded the gateway rejects nothing within the limits. -/
theorem rejectRaw_unrecorded {fields : List (PyStr × Json)}
    (hn : (fields.map fun f => scanNodes f.2).sum ≤ maxDurableScanNodes)
    (hd : ∀ f ∈ fields, scanHeight f.2 ≤ maxDurableScanDepth) :
    rejectRawProjectTextLocked [] fields = .ok () := by
  obtain ⟨c, hc⟩ := collectAll_fits fields ⟨0, []⟩ (by simpa using hn) hd
  have hdigests : durableStringDigests fields = .ok c.output := by rw [durableStringDigests, hc]; rfl
  simp [rejectRawProjectTextLocked, hdigests]

end Walk

section Scan
variable (py : Interpreter) {record : Json} {digest : PyStr}

/-- The scan gets through a record: `json.loads` nests deep enough, its nodes and its height are within
the limits of the walk, and its line is within the limit of a line. -/
structure Scannable (py : Interpreter) (record : Json) : Prop where
  nesting : record.nesting ≤ py.loadsDepth
  nodes : scanNodes record ≤ maxDurableScanNodes
  height : scanHeight record ≤ maxDurableScanDepth
  line : (entryLine record).length ≤ maxGlobalMemoryLineBytes

/-- A record as the gateway stores it. -/
structure Stored (record : Json) : Prop where
  object : ∃ items, record = .obj items
  keys : record.distinctKeys = true

/-- The scan's verdict on a record it gets through. -/
def scanVerdict (digest : PyStr) (record : Json) : Except ScanError Unit :=
  if digest ∈ scanDigests record then .error .alreadyDurable else .ok ()

theorem strip_record (items : List (PyStr × Json)) :
    strip ((Json.obj items).dumps (Json.spaced false false) ++ ['\n']) =
      (Json.obj items).dumps (Json.spaced false false) := by
  rw [strip_append_space (by decide)]
  refine strip_eq_self (fun c hc => ?_) fun c hc => ?_
  · rw [Json.dumps, List.cons_append, List.head?_cons, Option.mem_some_iff] at hc
    subst hc
    decide
  · rw [Json.dumps, List.getLast?_append, List.getLast?_singleton, Option.some_or,
      Option.mem_some_iff] at hc
    subst hc
    decide

/-- What the scan says of the line of a stored record. -/
theorem scanLine_entryLine (hs : Stored record) (digest : PyStr) :
    (record.nesting ≤ py.loadsDepth ∧ scanNodes record ≤ maxDurableScanNodes ∧
        scanHeight record ≤ maxDurableScanDepth →
      scanLine py digest (entryLine record) = scanVerdict digest record) ∧
    (¬ (record.nesting ≤ py.loadsDepth ∧ scanNodes record ≤ maxDurableScanNodes ∧
        scanHeight record ≤ maxDurableScanDepth) →
      ∃ e, scanLine py digest (entryLine record) = .error e) := by
  obtain ⟨⟨items, rfl⟩, hk⟩ := hs
  have hloads : Json.loads Json.plainHooks py.loadsDepth
      ((Json.obj items).dumps (Json.spaced false false)) =
        if (Json.obj items).nesting ≤ py.loadsDepth then some (.obj items) else none := by
    have h : Json.loads Json.plainHooks py.loadsDepth
        ((Json.obj items).dumps (Json.spaced false false) ++ []) =
          if (Json.obj items).nesting ≤ py.loadsDepth then
            Json.hooked Json.plainHooks (.obj items) else none :=
      Json.loads_dumps Json.plainHooks rfl
        ⟨⟨[' '], rfl, by decide⟩, ⟨[' '], rfl, by decide⟩⟩ py.loadsDepth (.obj items) (by simp)
    rwa [List.append_nil, Json.hooked_plain _ hk] at h
  have hne : (Json.obj items).dumps (Json.spaced false false) ≠ [] := by
    rw [Json.dumps]
    exact List.cons_ne_nil _ _
  have hline : scanLine py digest (entryLine (.obj items)) =
      if (Json.obj items).nesting ≤ py.loadsDepth then
        match durableStringDigests [("record".toList, .obj items)] with
        | .error reason => .error (.limit reason)
        | .ok found =>
          if digest ∈ found.map Prod.snd then .error .alreadyDurable else .ok ()
      else .error .invalidJson := by
    rw [scanLine, entryLine, decodeUtf8_encodeUtf8]
    simp only [strip_record, if_neg hne, hloads]
    by_cases hn : (Json.obj items).nesting ≤ py.loadsDepth
    · simp only [if_pos hn]
    · simp only [if_neg hn]
  obtain ⟨hok, herr⟩ := durableStringDigests_single "record".toList (.obj items)
  constructor
  · rintro ⟨hn, hfit⟩
    obtain ⟨found, hfound, hdigests⟩ := hok hfit
    rw [hline, if_pos hn, hfound]
    simp only [hdigests]
    rfl
  · intro hnot
    rw [hline]
    by_cases hn : (Json.obj items).nesting ≤ py.loadsDepth
    · obtain ⟨reason, hreason⟩ := herr fun hfit => hnot ⟨hn, hfit⟩
      rw [if_pos hn, hreason]
      exact ⟨_, rfl⟩
    · rw [if_neg hn]
      exact ⟨_, rfl⟩

/-- The scan's turn over the line of one stored record. -/
theorem scanLines_entryLine (hs : Stored record) (digest : PyStr) (n : Nat) (rest : List Nat) :
    (Scannable py record → scanLines py digest (n + 1) (entryLine record ++ rest) =
      (scanVerdict digest record).bind fun _ => scanLines py digest n rest) ∧
    (¬ Scannable py record →
      ∃ e, scanLines py digest (n + 1) (entryLine record ++ rest) = .error e) := by
  obtain ⟨hok, herr⟩ := scanLine_entryLine py hs digest
  obtain ⟨body, hline, hb, -⟩ := entryLine_split record
  have htext : entryLine record ++ rest = body ++ 10 :: rest := by
    rw [hline, List.append_assoc]
    rfl
  have hlen : (entryLine record).length = body.length + 1 := by simp [hline]
  rw [htext, scanLines]
  by_cases hfit : body.length < maxGlobalMemoryLineBytes
  · have hread : readline (maxGlobalMemoryLineBytes + 1) (body ++ 10 :: rest) =
        (entryLine record, rest) := by
      rw [hline]
      exact readline_line hb _ (by omega)
    have hne : entryLine record ≠ [] := by simp [hline]
    have hshort : ¬ maxGlobalMemoryLineBytes < (entryLine record).length := by omega
    simp only [hread, if_neg hne, if_neg hshort]
    constructor
    · intro h
      rw [hok ⟨h.nesting, h.nodes, h.height⟩]
    · intro h
      obtain ⟨e, he⟩ := herr fun hall => h ⟨hall.1, hall.2.1, hall.2.2, by omega⟩
      rw [he]
      exact ⟨e, rfl⟩
  · -- a line beyond the limit is cut off just after it
    have hlong : maxGlobalMemoryLineBytes <
        (readline (maxGlobalMemoryLineBytes + 1) (body ++ 10 :: rest)).1.length := by
      have hlen' : body.length = maxGlobalMemoryLineBytes ∨
          maxGlobalMemoryLineBytes + 1 ≤ body.length := by omega
      rcases hlen' with he | hle
      · rw [readline_line hb _ (by omega), List.length_append, List.length_singleton]
        omega
      · rw [readline_long hb _ hle]
        omega
    have hne : (readline (maxGlobalMemoryLineBytes + 1) (body ++ 10 :: rest)).1 ≠ [] := by
      intro he
      simp [he] at hlong
    simp only [if_neg hne, if_pos hlong]
    exact ⟨fun h => absurd h.line (by omega), fun _ => ⟨_, rfl⟩⟩

/-- The scan's verdict on records it gets through, one after another. -/
def scanVerdicts (digest : PyStr) (records : List Json) : Except ScanError Unit :=
  if ∃ record ∈ records, digest ∈ scanDigests record then .error .alreadyDurable else .ok ()

theorem scanVerdicts_append (digest : PyStr) (records others : List Json) :
    scanVerdicts digest (records ++ others) =
      (scanVerdicts digest records).bind fun _ => scanVerdicts digest others := by
  unfold scanVerdicts
  by_cases h : ∃ record ∈ records, digest ∈ scanDigests record
  · obtain ⟨r, hr, hd⟩ := h
    rw [if_pos ⟨r, List.mem_append_left _ hr, hd⟩, if_pos ⟨r, hr, hd⟩]
    rfl
  · have hiff : (∃ record ∈ records ++ others, digest ∈ scanDigests record) ↔
        ∃ record ∈ others, digest ∈ scanDigests record := by
      constructor
      · rintro ⟨r, hr, hd⟩
        rcases List.mem_append.mp hr with hr | hr
        · exact (h ⟨r, hr, hd⟩).elim
        · exact ⟨r, hr, hd⟩
      · rintro ⟨r, hr, hd⟩
        exact ⟨r, List.mem_append_right _ hr, hd⟩
    rw [if_neg h, if_congr hiff rfl rfl]
    rfl

theorem scanVerdicts_singleton (digest : PyStr) (record : Json) :
    scanVerdicts digest [record] = scanVerdict digest record := by
  simp [scanVerdicts, scanVerdict]

/-- A channel of scannable records gets their verdict, and any other an error. -/
theorem scanLines_lines {records : List Json} (hs : ∀ r ∈ records, Stored r) (digest : PyStr) (n : Nat)
    (hn : records.length < n) :
    ((∀ r ∈ records, Scannable py r) →
      scanLines py digest n (records.flatMap entryLine) = scanVerdicts digest records) ∧
    ((∃ r ∈ records, ¬ Scannable py r) →
      ∃ e, scanLines py digest n (records.flatMap entryLine) = .error e) := by
  induction records generalizing n with
  | nil =>
    obtain ⟨m, rfl⟩ : ∃ m, n = m + 1 := ⟨n - 1, by simp only [List.length_nil] at hn; omega⟩
    refine ⟨fun _ => ?_, fun h => by simp at h⟩
    simp [scanLines, scanVerdicts, readline]
  | cons r records ih =>
    obtain ⟨m, rfl⟩ : ∃ m, n = m + 1 := ⟨n - 1, by omega⟩
    obtain ⟨hok, herr⟩ := scanLines_entryLine py (hs r List.mem_cons_self) digest m
      (records.flatMap entryLine)
    have ih' := ih (fun r' hr' => hs r' (List.mem_cons_of_mem _ hr')) m
      (by simp only [List.length_cons] at hn; omega)
    rw [List.flatMap_cons]
    constructor
    · intro hall
      have hcons : r :: records = [r] ++ records := rfl
      rw [hok (hall r List.mem_cons_self), ih'.1 fun r' hr' => hall r' (List.mem_cons_of_mem _ hr'),
        hcons, scanVerdicts_append, scanVerdicts_singleton]
    · rintro ⟨r', hr', hnot⟩
      by_cases hr : Scannable py r
      · rcases List.mem_cons.mp hr' with rfl | hr'
        · exact (hnot hr).elim
        · obtain ⟨e, he⟩ := ih'.2 ⟨r', hr', hnot⟩
          rw [hok hr, he]
          cases scanVerdict digest r with
          | error e' => exact ⟨e', rfl⟩
          | ok u => exact ⟨e, rfl⟩
      · exact herr hr

/-- The same over the channels of some kinds. -/
theorem scanChannels_lines {channels : Kind → List Nat} {records : Kind → List Json}
    (hch : ∀ kind, channels kind = (records kind).flatMap entryLine)
    (hs : ∀ kind, ∀ r ∈ records kind, Stored r) (digest : PyStr) (kinds : List Kind) :
    ((∀ kind ∈ kinds, ∀ r ∈ records kind, Scannable py r) →
      scanChannels py channels digest kinds = scanVerdicts digest (kinds.flatMap records)) ∧
    ((∃ kind ∈ kinds, ∃ r ∈ records kind, ¬ Scannable py r) →
      ∃ e, scanChannels py channels digest kinds = .error e) := by
  induction kinds with
  | nil => exact ⟨fun _ => by simp [scanChannels, scanVerdicts], fun h => by simp at h⟩
  | cons kind kinds ih =>
    have hlen : (records kind).length < (channels kind).length + 1 := by
      rw [hch]
      exact length_lt_lines _
    obtain ⟨hok, herr⟩ := scanLines_lines py (hs kind) digest _ hlen
    rw [← hch] at hok herr
    constructor
    · intro hall
      rw [scanChannels, hok (hall kind List.mem_cons_self),
        ih.1 fun k hk => hall k (List.mem_cons_of_mem _ hk), List.flatMap_cons, scanVerdicts_append]
    · rintro ⟨k, hk, hnot⟩
      by_cases hhere : ∀ r ∈ records kind, Scannable py r
      · have hlater : ∃ k ∈ kinds, ∃ r ∈ records k, ¬ Scannable py r := by
          rcases List.mem_cons.mp hk with rfl | hk
          · obtain ⟨r, hr, hn⟩ := hnot
            exact (hn (hhere r hr)).elim
          · exact ⟨k, hk, hnot⟩
        obtain ⟨e, he⟩ := ih.2 hlater
        rw [scanChannels, hok hhere, he]
        cases scanVerdicts digest (records kind) with
        | error e' => exact ⟨e', rfl⟩
        | ok u => exact ⟨e, rfl⟩
      · obtain ⟨e, he⟩ := herr (by simpa using hhere)
        rw [scanChannels, he]
        exact ⟨e, rfl⟩

end Scan

section Records

/-- Setting a key keeps the keys of an object distinct. -/
theorem distinctKeys_setItem {items : List (PyStr × Json)} {kv : PyStr × Json}
    (hi : (Json.obj items).distinctKeys = true) (hv : kv.2.distinctKeys = true) :
    (Json.obj (Json.setItem items kv)).distinctKeys = true := by
  rw [Json.distinct_obj] at hi ⊢
  obtain ⟨hn, hvs⟩ := hi
  unfold Json.setItem
  by_cases hany : items.any (·.1 == kv.1) = true
  · rw [if_pos hany]
    have hkeys : (items.map fun p => if p.1 == kv.1 then kv else p).map Prod.fst =
        items.map Prod.fst := by
      rw [List.map_map]
      refine List.map_congr_left fun p _ => ?_
      by_cases hp : p.1 = kv.1
      · simp [hp]
      · simp [hp]
    refine ⟨hkeys ▸ hn, fun p hp => ?_⟩
    obtain ⟨q, hq, rfl⟩ := List.mem_map.mp hp
    split_ifs
    · exact hv
    · exact hvs q hq
  · rw [if_neg hany]
    have hnew : kv.1 ∉ items.map Prod.fst := by
      intro hm
      obtain ⟨p, hp, he⟩ := List.mem_map.mp hm
      exact hany (List.any_eq_true.mpr ⟨p, hp, beq_iff_eq.mpr he⟩)
    refine ⟨?_, fun p hp => ?_⟩
    · rw [List.map_append, List.nodup_append]
      refine ⟨hn, by simp, fun a ha b hb => ?_⟩
      rw [List.map_singleton, List.mem_singleton] at hb
      rintro rfl
      exact hnew (hb ▸ ha)
    · rcases List.mem_append.mp hp with hp | hp
      · exact hvs p hp
      · rw [List.mem_singleton.mp hp]
        exact hv

theorem distinctKeys_setItems {items : List (PyStr × Json)} (more : List (PyStr × Json))
    (hi : (Json.obj items).distinctKeys = true) (hm : ∀ kv ∈ more, kv.2.distinctKeys = true) :
    (Json.obj (more.foldl Json.setItem items)).distinctKeys = true := by
  induction more generalizing items with
  | nil => exact hi
  | cons kv more ih =>
    exact ih (distinctKeys_setItem hi (hm kv List.mem_cons_self))
      fun p hp => hm p (List.mem_cons_of_mem _ hp)

/-- What an append through the gateway stores. -/
theorem GatewayAppend.stored_record (g : GatewayAppend) (verifiable : Bool) (id : PyStr) :
    Stored (entryRecord g.call verifiable id g.ts) := by
  refine ⟨⟨_, rfl⟩, distinctKeys_setItems _ ?_ g.extra_values⟩
  have hnames : ["id".toList, "timestamp_utc".toList, "author".toList, "kind".toList, "claim".toList,
      "evidence".toList, "verifiable".toList, "status".toList, "fact_id".toList, "links".toList,
      "glossary".toList].Nodup := by decide
  rw [Json.distinct_obj]
  refine ⟨hnames, ?_⟩
  simp only [List.forall_mem_cons]
  exact ⟨rfl, rfl, rfl, rfl, rfl, rfl, rfl, rfl, rfl, g.links_keys, g.glossary_keys,
    fun kv hkv => by cases hkv⟩

theorem acceptEntry_call {py : Interpreter} {call : AppendCall} {ts : PyStr} {e : Entry}
    (h : acceptEntry py call ts = .ok e) : e.call = call ∧ e.ts = ts := by
  unfold acceptEntry at h
  cases hk : Kind.ofName? call.kind with
  | none => simp [hk] at h
  | some kind =>
    simp only [hk, bind, Except.bind, pure, Except.pure, throw, throwThe, MonadExceptOf.throw] at h
    cases hv : validateAdvisorCheckpoint call.claim call.evidence call.links with
    | error reason =>
      simp only [hv] at h
      split_ifs at h
      cases h
      exact ⟨rfl, rfl⟩
    | ok u =>
      simp only [hv] at h
      split_ifs at h <;> (cases h; exact ⟨rfl, rfl⟩)

/-- Global memory as the gateway fills it. -/
structure GatewayFilled (py : Interpreter) (m : GlobalMemory) : Prop where
  filled : m.Filled py
  stored : ∀ e ∈ m.accepted, Stored e.record

/-- An accepted call is stored behind the others. -/
theorem append_filled {py : Interpreter} {m : GlobalMemory} {g : GatewayAppend} {r : PyStr × GlobalMemory}
    (hm : GatewayFilled py m) (h : m.append py g.call g.ts = .ok r) :
    GatewayFilled py r.2 ∧ ∃ e, r.2.accepted = m.accepted ++ [e] ∧ e.call = g.call := by
  have hfilled := GlobalMemory.filled_append hm.filled h
  unfold GlobalMemory.append at h
  cases hacc : acceptEntry py g.call g.ts with
  | error e => rw [hacc] at h; cases h
  | ok new =>
    rw [hacc] at h
    cases h
    obtain ⟨hcall, hts⟩ := acceptEntry_call hacc
    refine ⟨⟨hfilled, fun e he => ?_⟩, new, rfl, hcall⟩
    rcases List.mem_append.mp he with he | he
    · exact hm.stored e he
    · rw [List.mem_singleton.mp he, Entry.record, hcall, hts]
      exact g.stored_record _ _

theorem gatewayAppend_filled {py : Interpreter} {m m' : GlobalMemory} {g : GatewayAppend}
    (hm : GatewayFilled py m) (h : gatewayAppend py m g = .ok m') : GatewayFilled py m' := by
  unfold gatewayAppend at h
  cases hr : rejectRawProjectTextLocked g.stored g.fields with
  | error e => rw [hr] at h; cases h
  | ok u =>
    rw [hr] at h
    cases ha : m.append py g.call g.ts with
    | error e => rw [ha] at h; cases h
    | ok r =>
      rw [ha] at h
      cases h
      exact (append_filled hm ha).1

/-- After every sequence of appends through the gateway. -/
theorem gatewayRun_filled (py : Interpreter) (appends : List GatewayAppend) :
    GatewayFilled py (gatewayRun py appends) := by
  unfold gatewayRun
  refine List.foldlRecOn appends _ ⟨⟨fun _ => rfl, fun e he => by cases he⟩, fun e he => by cases he⟩
    fun m hm g _ => ?_
  cases h : gatewayAppend py m g with
  | ok m' => exact gatewayAppend_filled hm h
  | error e => exact hm

end Records

section Memory
variable {py : Interpreter} {m : GlobalMemory}

theorem mem_scanOrder (kind : Kind) : kind ∈ scanOrder := by cases kind <;> decide

theorem mem_kindRecords {kind : Kind} {record : Json} : record ∈ kindRecords m.accepted kind ↔
    ∃ e ∈ m.accepted, e.kind = kind ∧ e.record = record := by
  simp [kindRecords, and_assoc]

/-- The scan's verdict on the whole memory. -/
theorem scanChannels_memory (hm : GatewayFilled py m) (digest : PyStr) :
    ((∀ e ∈ m.accepted, Scannable py e.record) → scanChannels py m.channels digest scanOrder =
      if ∃ e ∈ m.accepted, digest ∈ scanDigests e.record then .error .alreadyDurable else .ok ()) ∧
    ((∃ e ∈ m.accepted, ¬ Scannable py e.record) →
      ∃ error, scanChannels py m.channels digest scanOrder = .error error) := by
  have hstored : ∀ kind, ∀ r ∈ kindRecords m.accepted kind, Stored r := by
    intro kind r hr
    obtain ⟨e, he, -, rfl⟩ := mem_kindRecords.mp hr
    exact hm.stored e he
  obtain ⟨hok, herr⟩ := scanChannels_lines py hm.filled.channels hstored digest scanOrder
  constructor
  · intro hall
    have hscan : ∀ kind ∈ scanOrder, ∀ r ∈ kindRecords m.accepted kind, Scannable py r := by
      intro kind _ r hr
      obtain ⟨e, he, -, rfl⟩ := mem_kindRecords.mp hr
      exact hall e he
    have hiff : (∃ r ∈ scanOrder.flatMap (kindRecords m.accepted), digest ∈ scanDigests r) ↔
        ∃ e ∈ m.accepted, digest ∈ scanDigests e.record := by
      constructor
      · rintro ⟨r, hr, hd⟩
        obtain ⟨kind, _, hr⟩ := List.mem_flatMap.mp hr
        obtain ⟨e, he, -, rfl⟩ := mem_kindRecords.mp hr
        exact ⟨e, he, hd⟩
      · rintro ⟨e, he, hd⟩
        exact ⟨e.record, List.mem_flatMap.mpr ⟨e.kind, mem_scanOrder _,
          mem_kindRecords.mpr ⟨e, he, rfl, rfl⟩⟩, hd⟩
    rw [hok hscan, scanVerdicts, if_congr hiff rfl rfl]
  · rintro ⟨e, he, hnot⟩
    exact herr ⟨e.kind, mem_scanOrder _, e.record, mem_kindRecords.mpr ⟨e, he, rfl, rfl⟩, hnot⟩

end Memory

/-- After any appends through the gateway, the scan of a reply gets through just when it gets through
every accepted record and the reply is none of their strings; where it gets through every record, a
completion depends on the memory by the digest of the reply alone. -/
theorem completion_scan_iff [Patterns] (py : Interpreter) (appends : List GatewayAppend) (reply : PyStr) :
    (assertDigestAbsentFromGlobalMemory py (gatewayRun py appends).channels (sha256Text reply) =
        .ok () ↔
      (∀ e ∈ (gatewayRun py appends).accepted, Scannable py e.record) ∧
        ∀ e ∈ (gatewayRun py appends).accepted, sha256Text reply ∉ scanDigests e.record) ∧
    ((∀ e ∈ (gatewayRun py appends).accepted, Scannable py e.record) →
      ∀ (l : Ledger) (requestId : PyStr) (target : Finish) (a : Attestation) (now : Nat),
        a.response = reply →
        finish l requestId target a (assertDigestAbsentFromGlobalMemory py
            (gatewayRun py appends).channels (sha256Text reply)) now =
          finish l requestId target a
            (if ∃ e ∈ (gatewayRun py appends).accepted, sha256Text reply ∈ scanDigests e.record then
              .error (.conflict "browser output already exists in durable global memory")
            else .ok ()) now) := by
  obtain ⟨hok, herr⟩ := scanChannels_memory (gatewayRun_filled py appends) (sha256Text reply)
  generalize gatewayRun py appends = m at hok herr ⊢
  have hscan : (∀ e ∈ m.accepted, Scannable py e.record) →
      assertDigestAbsentFromGlobalMemory py m.channels (sha256Text reply) =
        if ∃ e ∈ m.accepted, sha256Text reply ∈ scanDigests e.record then
          .error (.conflict "browser output already exists in durable global memory")
        else .ok () := by
    intro hall
    rw [assertDigestAbsentFromGlobalMemory, validateHash, if_pos (isSha256_sha256Text _), hok hall]
    split_ifs <;> rfl
  refine ⟨⟨fun h => ?_, fun h => ?_⟩, fun hall l requestId target a now _ => by rw [hscan hall]⟩
  · have hall : ∀ e ∈ m.accepted, Scannable py e.record := by
      by_contra hnot
      obtain ⟨error, he⟩ := herr (by simpa using hnot)
      rw [assertDigestAbsentFromGlobalMemory, validateHash, if_pos (isSha256_sha256Text _), he] at h
      cases h
    rw [hscan hall] at h
    refine ⟨hall, fun e he hd => ?_⟩
    rw [if_pos ⟨e, he, hd⟩] at h
    cases h
  · rw [hscan h.1, if_neg]
    rintro ⟨e, he, hd⟩
    exact h.2 e he hd

/-- Lists inside each other, so many below the outermost. -/
def nestedLists : Nat → Json
  | 0 => .arr []
  | n + 1 => .arr [nestedLists n]

/-- A plan whose links nest as deep as the check of the gateway allows. -/
def deepPlan : GatewayAppend where
  seam := .gmAdd false
  call := { planCall "on n".toList with links := some [("routes".toList, nestedLists 63)] }
  stored := []
  ts := "2026-01-01".toList
  links_keys := by decide +kernel
  glossary_keys := by decide +kernel
  extra_values := fun kv hkv => by cases hkv

/-- The plan passes the check of the gateway. -/
theorem deepPlan_passes : rejectRawProjectTextLocked [] deepPlan.fields = .ok () :=
  rejectRaw_unrecorded (by decide +kernel) (by decide +kernel)

theorem deepPlan_entry : acceptEntry ⟨1000, 1000⟩ deepPlan.call deepPlan.ts =
    .ok ⟨.plan, deepPlan.call, deepPlan.ts⟩ := by
  have hkind : Kind.ofName? deepPlan.call.kind = some .plan := by decide +kernel
  have hnest : ¬ 1000 < (Entry.record ⟨.plan, deepPlan.call, deepPlan.ts⟩).nesting := by
    decide +kernel
  have hopen : ¬ (deepPlan.call.verifiable.getD Kind.plan.verifiable = true ∧
      strip deepPlan.call.evidence = []) := fun h => absurd h.1 (by decide)
  rw [acceptEntry, hkind]
  simp only [reduceCtorEq, if_false, hopen, hnest]
  rfl

/-- The gateway accepts the plan. -/
theorem deepPlan_accepted : (gatewayRun ⟨1000, 1000⟩ [deepPlan]).accepted =
    [⟨.plan, deepPlan.call, deepPlan.ts⟩] := by
  have hok : rejectRawProjectTextLocked deepPlan.stored deepPlan.fields = .ok () := deepPlan_passes
  have happend : gatewayAppend ⟨1000, 1000⟩ .empty deepPlan =
      ((acceptEntry ⟨1000, 1000⟩ deepPlan.call deepPlan.ts).map fun entry => {
        channels := fun kind => if kind = entry.kind then
          GlobalMemory.empty.channels kind ++ entryLine entry.record
            else GlobalMemory.empty.channels kind
        accepted := GlobalMemory.empty.accepted ++ [entry] }).mapError .memory := by
    simp only [gatewayAppend, hok, GlobalMemory.append]
    cases acceptEntry ⟨1000, 1000⟩ deepPlan.call deepPlan.ts <;> rfl
  rw [gatewayRun, List.foldl_cons, List.foldl_nil, happend, deepPlan_entry]
  rfl

/-- A plan that the gateway accepted stops the completion of a reply that is in no record. -/
theorem deepPlan_blocks : ¬ ∀ (py : Interpreter) (appends : List GatewayAppend) (reply : PyStr),
    (∀ e ∈ (gatewayRun py appends).accepted, sha256Text reply ∉ scanDigests e.record) →
      assertDigestAbsentFromGlobalMemory py (gatewayRun py appends).channels (sha256Text reply) =
        .ok () := by
  intro hall
  have hscan := hall ⟨1000, 1000⟩ [deepPlan] "a new idea".toList
  have hdeep : maxDurableScanDepth <
      scanHeight (Entry.record ⟨.plan, deepPlan.call, deepPlan.ts⟩) := by decide +kernel
  have hfresh : sha256Text "a new idea".toList ∉
      scanDigests (Entry.record ⟨.plan, deepPlan.call, deepPlan.ts⟩) := by decide +kernel
  have herr := (scanChannels_memory (gatewayRun_filled ⟨1000, 1000⟩ [deepPlan])
    (sha256Text "a new idea".toList)).2
  rw [deepPlan_accepted] at hscan herr
  obtain ⟨error, he⟩ := herr ⟨_, List.mem_singleton_self _, fun h => absurd h.height (by omega)⟩
  have hok := hscan fun e hm => by
    rw [List.mem_singleton.mp hm]
    exact hfresh
  rw [assertDigestAbsentFromGlobalMemory, validateHash, if_pos (isSha256_sha256Text _), he] at hok
  cases hok

end Danus.Strategy
