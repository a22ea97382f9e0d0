import Danus.Lib.JsonRead
import Danus.Lib.Sha256
import Danus.Lib.Utf8

/-! Global memory: one append-only channel of JSON lines a kind, and the strict reader behind exact
lookups. A channel is the bytes of its file. -/
namespace Danus.Core
open Python

/-- The kinds of `GLOBAL_KINDS`, in its order. -/
inductive Kind where
  | conclusion | example | counterexample | proofAttempt | plan | deadEnd | direction | obstacle
  | masterGuidance | verification | elaboration | advisorCheckpoint
  deriving DecidableEq, Repr

namespace Kind

def all : List Kind := [.conclusion, .example, .counterexample, .proofAttempt, .plan, .deadEnd,
  .direction, .obstacle, .masterGuidance, .verification, .elaboration, .advisorCheckpoint]

def name : Kind → PyStr
  | .conclusion => "conclusion".toList
  | .example => "example".toList
  | .counterexample => "counterexample".toList
  | .proofAttempt => "proof_attempt".toList
  | .plan => "plan".toList
  | .deadEnd => "dead_end".toList
  | .direction => "direction".toList
  | .obstacle => "obstacle".toList
  | .masterGuidance => "master_guidance".toList
  | .verification => "verification".toList
  | .elaboration => "elaboration".toList
  | .advisorCheckpoint => "advisor_checkpoint".toList

/-- `GLOBAL_KINDS[kind]` -/
def verifiable : Kind → Bool
  | .conclusion | .example | .counterexample | .proofAttempt => true
  | _ => false

def ofName? (name : PyStr) : Option Kind := all.find? fun kind => kind.name == name

theorem mem_all (kind : Kind) : kind ∈ all := by cases kind <;> decide

end Kind

/-- How deep `json.dumps` and `json.loads` nest before the interpreter's stack is full. -/
structure Interpreter where
  dumpsDepth : Nat
  loadsDepth : Nat

def maxSerializedBytes : Nat := 32 * 1024

def maxPhysicalLineBytes : Nat := 2 * maxSerializedBytes + 1

/-- Why a checkpoint is refused. -/
inductive CheckpointError where
  | noClaim | longClaim | noEvidence | longEvidence | sectionCount | sectionOrder
  | emptySection (heading : PyStr)
  | linksType
  | unknownLinks (names : List PyStr)
  | factIdsType | tooManyFactIds | duplicateFactIds | invalidFactId
  deriving DecidableEq

/-- What `append` and the exact lookup raise. -/
inductive GmError where
  | unknownKind (kind : PyStr)
  | checkpoint (reason : CheckpointError)
  | noEvidence (kind : PyStr)
  | recursion
  | longLine (n : Nat)
  | tornLine (n : Nat)
  | badUtf8 (n : Nat)
  | malformed (n : Nat)
  | notObject (n : Nat)
  | notCanonical
  | tooLarge
  | invalidId
  | duplicateId (id : PyStr)
  | unknownId (id : PyStr)
  deriving DecidableEq

/-- `repr` of a list of names without quotes and backslashes. -/
def reprNames (names : List PyStr) : PyStr :=
  '[' :: joinWith ", ".toList (names.map fun name => '\'' :: name ++ ['\'']) ++ [']']

def CheckpointError.message : CheckpointError → PyStr
  | .noClaim => "advisor_checkpoint claim must be non-empty text".toList
  | .longClaim => "advisor_checkpoint claim exceeds 512 UTF-8 bytes".toList
  | .noEvidence => "advisor_checkpoint evidence must be non-empty text".toList
  | .longEvidence => "advisor_checkpoint exceeds 16384 UTF-8 bytes".toList
  | .sectionCount => "advisor_checkpoint must contain each canonical section exactly once".toList
  | .sectionOrder => "advisor_checkpoint sections are out of canonical order".toList
  | .emptySection heading =>
    "advisor_checkpoint section '".toList ++ heading ++ "' is empty".toList
  | .linksType => "advisor_checkpoint links must be an object".toList
  | .unknownLinks names =>
    "advisor_checkpoint contains unsupported protected links: ".toList ++ reprNames names
  | .factIdsType => "advisor_checkpoint links.fact_ids must be a list".toList
  | .tooManyFactIds => "advisor_checkpoint contains too many verified fact ids (maximum 12)".toList
  | .duplicateFactIds => "advisor_checkpoint links.fact_ids must not contain duplicates".toList
  | .invalidFactId => "advisor_checkpoint links.fact_ids contains an invalid fact id".toList

def GmError.message : GmError → PyStr
  | .unknownKind kind => "unknown kind '".toList ++ kind ++ "'. Known: ".toList ++
      reprNames ((Json.sortByKey (Kind.all.map fun k => (k.name, ()))).map Prod.fst)
  | .checkpoint reason => reason.message
  | .noEvidence kind => "kind '".toList ++ kind ++
      "' is verifiable and requires explicit evidence".toList
  | .recursion => "maximum recursion depth exceeded".toList
  | .longLine n => "global-memory JSONL line ".toList ++ natText n ++
      " exceeds its physical byte limit".toList
  | .tornLine n => "torn global-memory JSONL line ".toList ++ natText n
  | .badUtf8 n => "malformed global-memory UTF-8 line ".toList ++ natText n
  | .malformed n => "malformed global-memory JSONL line ".toList ++ natText n
  | .notObject n => "global-memory JSONL line ".toList ++ natText n ++ " is not an object".toList
  | .notCanonical => "global-memory entry is not strict canonical JSON".toList
  | .tooLarge => "global-memory entry exceeds exact-lookup serialized byte limit".toList
  | .invalidId => "global-memory entry_id must be 16 lowercase hex characters".toList
  | .duplicateId id => "duplicate global-memory entry_id: ".toList ++ id
  | .unknownId id => "unknown global-memory entry_id: ".toList ++ id

/-- `canonical_global_memory_record(record)` with its default limit. -/
def canonicalRecord (py : Interpreter) (record : Json) : Except GmError (List Nat) :=
  if py.dumpsDepth < record.nesting then .error .recursion
  else if !record.finiteNumbers then .error .notCanonical
  else
    let encoded := record.preimage (Json.compact false true)
    if maxSerializedBytes < encoded.length then .error .tooLarge else .ok encoded

/-- `handle.readline(limit)`, with the bytes after the line. -/
def readline : Nat → List Nat → List Nat × List Nat
  | 0, bytes => ([], bytes)
  | _ + 1, [] => ([], [])
  | n + 1, b :: bytes =>
    if b = 10 then ([b], bytes) else (b :: (readline n bytes).1, (readline n bytes).2)

/-- The whitespace of `bytes.strip`. -/
def isByteSpace (b : Nat) : Bool := b == 32 || (9 ≤ b && b ≤ 13)

/-- One line of a channel that is not blank. -/
def readEntry (py : Interpreter) (lineNumber : Nat) (line : List Nat) : Except GmError Json :=
  match decodeUtf8 line with
  | none => .error (.badUtf8 lineNumber)
  | some text =>
    match Json.loads Json.strictHooks py.loadsDepth text with
    | none => .error (.malformed lineNumber)
    | some (.obj items) => (canonicalRecord py (.obj items)).map fun _ => .obj items
    | some _ => .error (.notObject lineNumber)

/-- `_iter_jsonl_strict`: the entries it yields, and what it raises after them; the first number
bounds the lines still to read. -/
def iterJsonlStrict (py : Interpreter) : Nat → Nat → List Nat → List Json × Option GmError
  | 0, _, _ => ([], none)
  | n + 1, seen, bytes =>
    let line := (readline (maxPhysicalLineBytes + 1) bytes).1
    let rest := (readline (maxPhysicalLineBytes + 1) bytes).2
    if line = [] then ([], none)
    else if maxPhysicalLineBytes < line.length then ([], some (.longLine (seen + 1)))
    else if line.getLast? ≠ some 10 then ([], some (.tornLine (seen + 1)))
    else if line.all isByteSpace then iterJsonlStrict py n (seen + 1) rest
    else
      match readEntry py (seen + 1) line with
      | .error e => ([], some e)
      | .ok entry =>
        let others := iterJsonlStrict py n (seen + 1) rest
        (entry :: others.1, others.2)

/-- The entries of one channel. -/
def channelEntries (py : Interpreter) (bytes : List Nat) : List Json × Option GmError :=
  iterJsonlStrict py (bytes.length + 1) 0 bytes

/-- `entry.get("id") == entry_id` -/
def hasId (id : PyStr) (entry : Json) : Bool :=
  match entry.get? "id".toList with
  | some (.str s) => s == id
  | _ => false

/-- The inner loop of `get_immutable`. -/
def matchEntries (id : PyStr) : Option Json → List Json → Except GmError (Option Json)
  | found, [] => .ok found
  | found, entry :: entries =>
    if hasId id entry then
      match found with
      | some _ => .error (.duplicateId id)
      | none => matchEntries id (some entry) entries
    else matchEntries id found entries

/-- The outer loop of `get_immutable`, over the kinds still to scan. -/
def matchChannels (py : Interpreter) (channels : Kind → List Nat) (id : PyStr) :
    Option Json → List Kind → Except GmError (Option Json)
  | found, [] => .ok found
  | found, kind :: kinds =>
    match matchEntries id found (channelEntries py (channels kind)).1,
        (channelEntries py (channels kind)).2 with
    | .error e, _ => .error e
    | .ok _, some e => .error e
    | .ok found, none => matchChannels py channels id found kinds

/-- `GlobalMemory.get_immutable` -/
def getImmutable (py : Interpreter) (channels : Kind → List Nat) (id : PyStr) : Except GmError Json :=
  if !isHexOf 16 id then .error .invalidId
  else
    match matchChannels py channels id none Kind.all with
    | .error e => .error e
    | .ok none => .error (.unknownId id)
    | .ok (some entry) => (canonicalRecord py entry).map fun _ => entry

/-- Where `needle` starts in the text, without overlaps, as `str.count` and `str.index` find it: the
first number bounds the characters still to search, the second one is the position. -/
def occurrences (needle : PyStr) : Nat → Nat → PyStr → List Nat
  | 0, _, _ => []
  | n + 1, i, text =>
    if needle <+: text then i :: occurrences needle n (i + needle.length) (text.drop needle.length)
    else
      match text with
      | [] => []
      | _ :: text => occurrences needle n (i + 1) text

/-- `ADVISOR_CHECKPOINT_HEADINGS` -/
def checkpointHeadings : List PyStr := ["## Verified facts".toList,
  "## Failed routes and evidence".toList, "## Unresolved bottleneck".toList,
  "## Candidate decision question".toList]

/-- The text between a heading and the next one, or the end. -/
def sectionsOf (evidence : PyStr) : List (PyStr × Nat) → List (PyStr × PyStr)
  | [] => []
  | [(heading, i)] => [(heading, evidence.drop (i + heading.length))]
  | (heading, i) :: (heading', j) :: rest =>
    (heading, (evidence.take j).drop (i + heading.length)) ::
      sectionsOf evidence ((heading', j) :: rest)

def isFactId : Json → Bool
  | .str s => isHexOf 16 s
  | _ => false

def factIdText : Json → PyStr
  | .str s => s
  | v => v.dumps (Json.spaced false false)

/-- `validate_advisor_checkpoint` -/
def validateAdvisorCheckpoint (claim evidence : PyStr) (links : Option (List (PyStr × Json))) :
    Except CheckpointError Unit := do
  if strip claim = [] then throw .noClaim
  if 512 < utf8Length claim then throw .longClaim
  if strip evidence = [] then throw .noEvidence
  if 16 * 1024 < utf8Length evidence then throw .longEvidence
  let places := checkpointHeadings.map fun heading => occurrences heading (evidence.length + 1) 0 evidence
  if places.any fun found => found.length != 1 then throw .sectionCount
  let offsets := places.flatten
  if ¬ offsets.Pairwise (· ≤ ·) then throw .sectionOrder
  match (sectionsOf evidence (checkpointHeadings.zip offsets)).find? fun s => (strip s.2).isEmpty with
  | some s => throw (.emptySection s.1)
  | none => pure ()
  match links with
  | none => throw .linksType
  | some links =>
    let unknown := (links.map Prod.fst).filter fun key =>
      key != "fact_ids".toList && key != "recommendation_id".toList
    if unknown ≠ [] then
      throw (.unknownLinks ((Json.sortByKey (unknown.map fun k => (k, ()))).map Prod.fst))
    match links.lookup "fact_ids".toList with
    | some (.arr ids) =>
      if 12 < ids.length then throw .tooManyFactIds
      if ¬ (ids.map factIdText).Nodup then throw .duplicateFactIds
      if ids.any fun id => !isFactId id then throw .invalidFactId
    | _ => throw .factIdsType

/-- The parameters of `append`, which `**extra` cannot name. -/
def appendParameters : List PyStr := ["self".toList, "kind".toList, "claim".toList,
  "evidence".toList, "author".toList, "verifiable".toList, "links".toList, "glossary".toList]

/-- A call of `append`; the values are JSON as `json.dumps` writes them. -/
structure AppendCall where
  kind : PyStr
  claim : PyStr
  evidence : PyStr
  author : PyStr
  verifiable : Option Bool
  links : Option (List (PyStr × Json))
  glossary : Option (List (PyStr × Json))
  extra : List (PyStr × Json)
  extra_names : ∀ kv ∈ extra, kv.1 ∉ appendParameters
  extra_keys : (extra.map Prod.fst).Nodup

/-- `json.dumps([kind, claim, author, ts], ensure_ascii=False)`'s digest, shortened. -/
@[irreducible] def entryId (kind claim author ts : PyStr) : PyStr :=
  (Sha256.hexdigest (Json.preimage (Json.spaced false false)
    (.arr [.str kind, .str claim, .str author, .str ts]))).take 16

/-- The record that `append` writes. -/
def entryRecord (call : AppendCall) (verifiable : Bool) (id ts : PyStr) : Json :=
  let status := if verifiable then "unverified".toList else "open".toList
  .obj (call.extra.foldl Json.setItem [("id".toList, .str id), ("timestamp_utc".toList, .str ts),
    ("author".toList, .str call.author), ("kind".toList, .str call.kind),
    ("claim".toList, .str call.claim), ("evidence".toList, .str call.evidence),
    ("verifiable".toList, .bool verifiable), ("status".toList, .str status),
    ("fact_id".toList, .null), ("links".toList, .obj (call.links.getD [])),
    ("glossary".toList, .obj (call.glossary.getD []))])

/-- The line that `append_jsonl` writes. -/
def entryLine (record : Json) : List Nat :=
  encodeUtf8 (record.dumps (Json.spaced false false) ++ ['\n'])

/-- A call that `append` accepted, with its kind and the time it read. -/
structure Entry where
  kind : Kind
  call : AppendCall
  ts : PyStr

namespace Entry

/-- The id that `append` returned. -/
def id (e : Entry) : PyStr := entryId e.call.kind e.call.claim e.call.author e.ts

/-- The record that `append` stored. -/
def record (e : Entry) : Json :=
  entryRecord e.call (e.call.verifiable.getD e.kind.verifiable) e.id e.ts

end Entry

/-- What `append` decides at this time, before it writes. -/
def acceptEntry (py : Interpreter) (call : AppendCall) (ts : PyStr) : Except GmError Entry :=
  match Kind.ofName? call.kind with
  | none => .error (.unknownKind call.kind)
  | some kind => do
    if kind = .advisorCheckpoint then
      match validateAdvisorCheckpoint call.claim call.evidence call.links with
      | .error reason => throw (.checkpoint reason)
      | .ok _ => pure ()
    if call.verifiable.getD kind.verifiable ∧ strip call.evidence = [] then
      throw (.noEvidence call.kind)
    let entry : Entry := ⟨kind, call, ts⟩
    if py.dumpsDepth < entry.record.nesting then throw .recursion
    return entry

/-- The channels, with the calls that were accepted so far. -/
structure GlobalMemory where
  channels : Kind → List Nat
  accepted : List Entry

namespace GlobalMemory

def empty : GlobalMemory := ⟨fun _ => [], []⟩

/-- `GlobalMemory.append` -/
def append (py : Interpreter) (m : GlobalMemory) (call : AppendCall) (ts : PyStr) :
    Except GmError (PyStr × GlobalMemory) :=
  (acceptEntry py call ts).map fun entry => (entry.id, {
    channels := fun kind =>
      if kind = entry.kind then m.channels kind ++ entryLine entry.record else m.channels kind
    accepted := m.accepted ++ [entry] })

/-- One call after another, each at its own time; a call that raises writes nothing. -/
def run (py : Interpreter) (calls : List (AppendCall × PyStr)) : GlobalMemory :=
  calls.foldl (fun m c => match append py m c.1 c.2 with
    | .ok r => r.2
    | .error _ => m) empty

end GlobalMemory
end Danus.Core
