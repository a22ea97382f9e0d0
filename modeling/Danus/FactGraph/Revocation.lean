import Danus.FactGraph.RoundTrip
import Danus.Lib.Checks
import Danus.Lib.Searches

/-! Revoking a fact: the journal, the cascade that it makes durable, and what a refusal leaves behind. -/
namespace Danus.FactGraph.Revocation
open Python Sweeps Searches

/-- What reading a file as UTF-8 gives: its text, or the message of the decoding error. -/
abbrev FileText := Except PyStr PyStr

/-- `path.read_text(encoding="utf-8")` -/
def readText (text : FileText) : Except GraphError PyStr := text.mapError .value

/-- The `.md` files of a directory by their stems. -/
structure Directory where
  files : List (PyStr × FileText)
  stems : (files.map Prod.fst).Nodup

/-- The files of a graph while no add is pending. -/
structure Graph where
  facts : Directory
  revoked : Directory
  glossary : Option FileText
  revocationLog : Option FileText
  pendingRevocation : Option FileText

/-- The `reason` of a caller: a text, a `str` that UTF-8 has no bytes for with the message of the encoding error,
or no `str`. -/
inductive Reason where
  | text (s : PyStr)
  | unencodable (message : PyStr)
  | other

/-- What the journal of a revocation says. -/
structure Pending where
  revocationId : PyStr
  timestampUtc : PyStr
  rootFactId : PyStr
  reason : PyStr
  factIds : List PyStr

namespace Directory
variable {d : Directory} {id : PyStr} {text : FileText}

def has (d : Directory) (id : PyStr) : Bool := (d.files.lookup id).isSome

theorem has_iff : d.has id = true ↔ id ∈ d.files.map Prod.fst := by
  rw [has, List.lookup_isSome_iff]
  simp

/-- The directory without a file. -/
def remove (d : Directory) (id : PyStr) : Directory where
  files := eraseKey id d.files
  stems := d.stems.sublist (List.Sublist.map _ List.filter_sublist)

/-- The directory with a file that it did not have. -/
def add (d : Directory) (id : PyStr) (text : FileText) (h : d.has id = false) : Directory where
  files := (id, text) :: d.files
  stems := by
    refine List.nodup_cons.mpr ⟨fun hid => ?_, d.stems⟩
    rw [has_iff.mpr hid] at h
    cases h

end Directory

/-- What a call returns or raises, and the files it leaves. -/
abbrev Outcome (α : Type) := Except GraphError α × Graph

namespace Graph

/-- `_assert_graph_readable` -/
def readable (g : Graph) : Except GraphError Unit :=
  if g.pendingRevocation.isSome then
    .error (.value ("fact_graph_recovery_required: pending graph transaction .pending_revocation.json; " ++
      "retry a graph mutation or the original revoke").toList)
  else .ok ()

/-- `_list_unchecked` -/
def list (g : Graph) : List PyStr := sortStr (g.facts.files.map Prod.fst)

/-- `_exists_unchecked` -/
def has (g : Graph) (factId : PyStr) : Bool := isSafeFactId factId && g.facts.has factId

section Read
variable [Runtime]

/-- The error of `_path` and `_revoked_path`. -/
def invalidFactId (factId : PyStr) : GraphError := .value ("invalid fact_id: ".toList ++ Runtime.reprText factId)

/-- `_get_raw_unchecked` -/
def getRaw (g : Graph) (factId : PyStr) : Except GraphError (Option PyStr) :=
  if isSafeFactId factId then
    match g.facts.files.lookup factId with
    | some text => (readText text).map some
    | none => .ok none
  else .error (invalidFactId factId)

/-- The pairs of a predecessor and an active fact that `_descendants_unchecked` sorts into its reverse graph. -/
def reverseEdges (g : Graph) : List PyStr → Except GraphError (List (PyStr × PyStr))
  | [] => .ok []
  | activeId :: ids => do
    let raw ← g.getRaw activeId
    let edges ← g.reverseEdges ids
    return ((raw.map fun raw => (parseFrontmatter raw).predecessors).getD []).map (·, activeId) ++ edges

/-- `reverse_edges.get(fact_id, [])` -/
def following (edges : List (PyStr × PyStr)) (factId : PyStr) : List PyStr :=
  (edges.filter (·.1 == factId)).map Prod.snd

/-- `[fact_id] + _descendants_unchecked(fact_id)` -/
def withDescendants (g : Graph) (factId : PyStr) : Except GraphError (List PyStr) := do
  let edges ← g.reverseEdges g.list
  return collect (following edges) (edges.length + 1) [factId] [factId]

/-- One turn of the inner loop of `_active_glossary_excluding`. -/
def addTerm (rebuilt : List (PyStr × PyStr)) (item : PyStr × PyStr) : Except GraphError (List (PyStr × PyStr)) :=
  match rebuilt.lookup item.1 with
  | some prior =>
    if prior ≠ item.2 then
      .error (.value ("glossary_integrity_error: conflicting active definitions for ".toList ++ item.1))
    else .ok rebuilt
  | none => .ok (rebuilt ++ [item])

/-- One turn of the outer loop of `_active_glossary_excluding`. -/
def addFactTerms (g : Graph) (rebuilt : List (PyStr × PyStr)) (activeId : PyStr) :
    Except GraphError (List (PyStr × PyStr)) := do
  match ← g.getRaw activeId with
  | none => throw (.value ("fact_integrity_error: missing active fact ".toList ++ activeId))
  | some raw =>
    let frontmatter := parseFrontmatter raw
    validateFactIntegrity (g.revoked.has activeId) activeId raw frontmatter
    -- the glossary that is built of it could not be written
    if frontmatter.glossaryEncodes = false then
      throw (.value "'utf-8' codec can't encode character: surrogates not allowed".toList)
    (Json.sortByKey frontmatter.glossaryIntroduces).foldlM addTerm rebuilt

/-- `_active_glossary_excluding` -/
def activeGlossaryExcluding (g : Graph) (excluded : List PyStr) : Except GraphError (List (PyStr × PyStr)) :=
  (g.list.filter (· ∉ excluded)).foldlM g.addFactTerms []

end Read
end Graph

section Journal

/-- The text of `_write_project_glossary_atomic`. -/
def glossaryFile (glossary : List (PyStr × PyStr)) : PyStr :=
  let item (kv : PyStr × PyStr) := "  ".toList ++ Json.quote false kv.1 ++ ": ".toList ++ Json.quote false kv.2
  if glossary = [] then "\x7b\x7d\n".toList
  else "\x7b\n".toList ++ joinWith ",\n".toList ((Json.sortByKey glossary).map item) ++ "\n\x7d\n".toList

/-- The text of the journal. -/
def journalText (pending : Pending) : PyStr :=
  (Json.obj [("schema_version".toList, .int 1), ("revocation_id".toList, .str pending.revocationId),
    ("timestamp_utc".toList, .str pending.timestampUtc), ("root_fact_id".toList, .str pending.rootFactId),
    ("reason".toList, .str pending.reason), ("fact_ids".toList, .arr (pending.factIds.map .str))]).dumps
    (Json.spaced false true) ++ ['\n']

/-- `value == 1` -/
def equalsOne : Option Json → Bool
  | some (.int i) => i == 1
  | some (.bool b) => b
  | some (.float x) => x.text == "1.0".toList
  | _ => false

/-- The strings of a JSON list, if it has nothing else. -/
def strings : List Json → Option (List PyStr)
  | [] => some []
  | .str s :: rest => (strings rest).map (s :: ·)
  | _ :: _ => none

/-- `_load_pending_revocation_unlocked` -/
def loadPending : Option FileText → Except GraphError (Option Pending)
  | none => .ok none
  | some text => do
    let raw ← readText text
    match Json.parse raw with
    | none => throw (.value "fact_graph_recovery_error: unreadable pending revocation".toList)
    | some (.obj payload) =>
      match equalsOne (payload.lookup "schema_version".toList), payload.lookup "revocation_id".toList,
        payload.lookup "timestamp_utc".toList, payload.lookup "reason".toList,
        payload.lookup "root_fact_id".toList, payload.lookup "fact_ids".toList with
      | true, some (.str revocationId), some (.str timestampUtc), some (.str reason), some (.str rootId),
        some (.arr items) =>
        match strings items with
        | some factIds =>
          if isSafeFactId rootId ∧ factIds.head? = some rootId ∧ factIds.Nodup ∧ ∀ id ∈ factIds, isSafeFactId id then
            return some ⟨revocationId, timestampUtc, rootId, reason, factIds⟩
          else throw (.value "fact_graph_recovery_error: malformed pending revocation".toList)
        | none => throw (.value "fact_graph_recovery_error: malformed pending revocation".toList)
      | _, _, _, _, _, _ => throw (.value "fact_graph_recovery_error: malformed pending revocation".toList)
    | some _ => throw (.value "fact_graph_recovery_error: malformed pending revocation".toList)

/-- The entries of the log from this line on. -/
def logEntries (lineNumber : Nat) : List PyStr → Except GraphError (List (List (PyStr × Json)))
  | [] => .ok []
  | line :: lines =>
    if strip line = [] then logEntries (lineNumber + 1) lines
    else match Json.parse line with
      | some (.obj entry) => (logEntries (lineNumber + 1) lines).map (entry :: ·)
      | _ => .error (.value ("revocation_log_integrity_error: malformed line ".toList ++ natText lineNumber))

/-- `_read_revocation_log_strict` -/
def readRevocationLogStrict : Option FileText → Except GraphError (List (List (PyStr × Json)))
  | none => .ok []
  | some text => do logEntries 1 (splitlines (← readText text))

/-- The id of an entry, if it is a string. -/
def entryId (entry : List (PyStr × Json)) : Option PyStr :=
  match entry.lookup "fact_id".toList with
  | some (.str s) => some s
  | _ => none

def logEntry (pending : Pending) (factId : PyStr) : List (PyStr × Json) :=
  [("timestamp_utc".toList, .str pending.timestampUtc), ("fact_id".toList, .str factId),
    ("reason".toList, .str pending.reason),
    ("revoked_as_dependent_of".toList,
      if factId ≠ pending.rootFactId then .str pending.rootFactId else .null),
    ("revocation_id".toList, .str pending.revocationId)]

/-- The text of `_write_revocation_log_atomic`. -/
def revocationLogText (pending : Pending) (entries : List (List (PyStr × Json))) : PyStr :=
  (entries ++ (fresh (entries.filterMap entryId) pending.factIds).map (logEntry pending)).flatMap fun entry =>
    (Json.obj entry).dumps (Json.spaced false false) ++ ['\n']

/-- `_completed_revocation_ids` -/
def completedRevocationIds (entries : List (List (PyStr × Json))) (factId : PyStr) : List PyStr :=
  let dependsOn (entry : List (PyStr × Json)) := (entry.lookup "revoked_as_dependent_of".toList).getD .null
  let isRoot (entry : List (PyStr × Json)) :=
    entryId entry == some factId && match dependsOn entry with | .null => true | _ => false
  match (entries.filter isRoot).getLast? with
  | none => []
  | some root =>
    match root.lookup "revocation_id".toList with
    | some (.str revocationId) =>
      (entries.filter fun entry => match entry.lookup "revocation_id".toList with
        | some (.str s) => s == revocationId
        | _ => false).filterMap entryId
    | _ =>
      factId :: (entries.filter fun entry => match dependsOn entry with
        | .str s => s == factId
        | _ => false).filterMap entryId

/-- The moves of `_resume_pending_revocation_unlocked`. -/
def moveFacts : List PyStr → Graph → Outcome Unit
  | [], g => (.ok (), g)
  | id :: ids, g =>
    match g.facts.files.lookup id, hd : g.revoked.has id with
    | some _, true => (.error (.value ("fact_integrity_error: ".toList ++ id ++
        " exists in active and revoked stores".toList)), g)
    | some text, false => moveFacts ids { g with facts := g.facts.remove id, revoked := g.revoked.add id text hd }
    | none, true => moveFacts ids g
    | none, false => (.error (.value ("fact_graph_recovery_error: pending fact disappeared: ".toList ++ id)), g)

variable [Runtime]

/-- `_resume_pending_revocation_unlocked` -/
def resumePending (g : Graph) : Outcome (Option Pending) :=
  match loadPending g.pendingRevocation with
  | .error e => (.error e, g)
  | .ok none => (.ok none, g)
  | .ok (some pending) =>
    match g.activeGlossaryExcluding pending.factIds with
    | .error e => (.error e, g)
    | .ok rebuilt =>
      match moveFacts pending.factIds { g with glossary := some (.ok (glossaryFile rebuilt)) } with
      | (.error e, g) => (.error e, g)
      | (.ok (), g) =>
        match readRevocationLogStrict g.revocationLog with
        | .error e => (.error e, g)
        | .ok entries =>
          (.ok (some pending), { g with
            revocationLog := some (.ok (revocationLogText pending entries))
            pendingRevocation := none })

/-- What `_revoke_unlocked` does with an id that is not active. -/
def revokeInactive (g : Graph) (factId : PyStr) : Except GraphError (List PyStr) := do
  unless isSafeFactId factId do throw (Graph.invalidFactId factId)
  let completed ← if g.revoked.has factId then
      (readRevocationLogStrict g.revocationLog).map (completedRevocationIds · factId)
    else .ok []
  if completed ≠ [] then return completed
  throw (.value ("unknown fact_id: ".toList ++ factId))

/-- `_revoke_unlocked`; the id of the revocation and its time come from outside. -/
def revokeUnlocked (g : Graph) (revocationId timestampUtc factId : PyStr) (reason : Reason) :
    Outcome (List PyStr) :=
  match reason with
  | .other => (.error (.value "reason must be a string".toList), g)
  | .unencodable message =>
    if ¬ g.has factId then (revokeInactive g factId, g)
    else match g.withDescendants factId with
      | .error e => (.error e, g)
      -- the temporary file is removed, and nothing replaces the journal
      | .ok _ => (.error (.value message), g)
  | .text reason =>
    if ¬ g.has factId then (revokeInactive g factId, g)
    else match g.withDescendants factId with
      | .error e => (.error e, g)
      | .ok toRevoke =>
        let journal := journalText ⟨revocationId, timestampUtc, factId, reason, toRevoke⟩
        match resumePending { g with pendingRevocation := some (.ok journal) } with
        | (.error e, g) => (.error e, g)
        | (.ok none, g) => (.error (.runtime "AssertionError".toList), g)
        | (.ok (some resumed), g) => (.ok resumed.factIds, g)

/-- `revoke` -/
def revoke (g : Graph) (revocationId timestampUtc factId : PyStr) (reason : Reason) : Outcome (List PyStr) :=
  match resumePending g with
  | (.error e, g) => (.error e, g)
  | (.ok none, g) => revokeUnlocked g revocationId timestampUtc factId reason
  | (.ok (some recovered), g) =>
    if recovered.rootFactId = factId then (.ok recovered.factIds, g)
    else revokeUnlocked g revocationId timestampUtc factId reason

end Journal

namespace Graph
variable [Runtime]

/-- The text of an active fact, if it can be read. -/
def textOf (g : Graph) (factId : PyStr) : PyStr := ((g.getRaw factId).toOption.join).getD []

def frontmatter (g : Graph) (factId : PyStr) : Frontmatter := parseFrontmatter (g.textOf factId)

/-- Every active file has a safe name and a text. -/
def Listed (g : Graph) : Prop := ∀ id ∈ g.list, g.getRaw id = .ok (some (g.textOf id))

/-- The active facts that name this one as a predecessor. -/
def dependents (g : Graph) (factId : PyStr) : List PyStr :=
  g.list.filter fun id => factId ∈ (g.frontmatter id).predecessors

/-- The fact itself, or one that builds on it. -/
def Cascades (g : Graph) (root : PyStr) : PyStr → Prop := Reached g.dependents [root]

/-- No two items say different things of one term. -/
def Functional (items : List (PyStr × PyStr)) : Prop :=
  ∀ kv ∈ items, ∀ kv' ∈ items, kv.1 = kv'.1 → kv.2 = kv'.2

/-- Nothing stands in the way of the cascade: the facts that stay active pass their check, agree on what they
define and define it in texts that UTF-8 can write, none of those that go is in the revoked store, and the log has
an object on every line. -/
structure Revocable (g : Graph) (factId : PyStr) : Prop where
  intact : ∀ id ∈ g.list, ¬ g.Cascades factId id →
    validateFactIntegrity (g.revoked.has id) id (g.textOf id) (g.frontmatter id) = .ok ()
  agreeing : ∀ id ∈ g.list, ¬ g.Cascades factId id → ∀ id' ∈ g.list, ¬ g.Cascades factId id' →
    ∀ kv ∈ (g.frontmatter id).glossaryIntroduces, ∀ kv' ∈ (g.frontmatter id').glossaryIntroduces,
      kv.1 = kv'.1 → kv.2 = kv'.2
  encodable : ∀ id ∈ g.list, ¬ g.Cascades factId id → (g.frontmatter id).glossaryEncodes = true
  unmoved : ∀ id, g.Cascades factId id → g.revoked.has id = false
  logged : ∀ text, g.revocationLog = some text → ∃ raw, text = .ok raw ∧
    ∀ line ∈ splitlines raw, strip line ≠ [] → ∃ entry, Json.parse line = some (.obj entry)

/-- The call gets as far as its journal: the reason is a text, the fact is active, and all active files are read. -/
def Journalled (g : Graph) (factId : PyStr) (reason : Reason) : Prop :=
  (∃ s, reason = .text s) ∧ g.has factId = true ∧ g.Listed

/-- A call that raises leaves the graph as it was, readable and without a journal. -/
def RefusalKept (g : Graph) (revocationId timestampUtc factId : PyStr) (reason : Reason) : Prop :=
  ∀ e g', revoke g revocationId timestampUtc factId reason = (.error e, g') →
    g' = g ∧ g'.readable = .ok () ∧ g'.pendingRevocation = none

end Graph

section Listing
variable {g : Graph} {factId id : PyStr} {ids : List PyStr} {edges : List (PyStr × PyStr)}

theorem mem_list : id ∈ g.list ↔ g.facts.has id = true := by
  rw [Graph.list, (sortStr_perm _).mem_iff, Directory.has_iff]

variable [Runtime]

/-- An active file is read, or reading it raises. -/
theorem getRaw_ok_iff (hid : id ∈ g.list) :
    (∃ raw, g.getRaw id = .ok raw) ↔ g.getRaw id = .ok (some (g.textOf id)) := by
  refine ⟨?_, fun h => ⟨_, h⟩⟩
  rintro ⟨raw, hraw⟩
  have hsome : ∃ text, raw = some text := by
    rw [mem_list, Directory.has, Option.isSome_iff_exists] at hid
    obtain ⟨file, hfile⟩ := hid
    rw [Graph.getRaw] at hraw
    split at hraw
    · rw [hfile] at hraw
      obtain ⟨text, -, htext⟩ := Checks.map_ok.mp hraw
      exact ⟨text, htext.symm⟩
    · cases hraw
  obtain ⟨text, rfl⟩ := hsome
  rw [Graph.textOf, hraw]
  rfl

/-- The edges into a fact. -/
def Graph.edgesOf (g : Graph) (id : PyStr) : List (PyStr × PyStr) :=
  (((g.getRaw id).toOption.join.map fun raw => (parseFrontmatter raw).predecessors).getD []).map (·, id)

theorem edgesOf_eq {raw : Option PyStr} (h : g.getRaw id = .ok raw) :
    g.edgesOf id = ((raw.map fun raw => (parseFrontmatter raw).predecessors).getD []).map (·, id) := by
  rw [Graph.edgesOf, h]
  rfl

theorem reverseEdges_ok : g.reverseEdges ids = .ok edges ↔ (∀ id ∈ ids, ∃ raw, g.getRaw id = .ok raw) ∧
    edges = ids.flatMap g.edgesOf := by
  induction ids generalizing edges with
  | nil =>
    rw [Graph.reverseEdges]
    simp [eq_comm]
  | cons id ids ih =>
    simp only [Graph.reverseEdges, Checks.bind_ok, Checks.pure_ok, ih, List.forall_mem_cons, List.flatMap_cons]
    constructor
    · rintro ⟨raw, hraw, _, ⟨hall, rfl⟩, rfl⟩
      exact ⟨⟨⟨raw, hraw⟩, hall⟩, by rw [edgesOf_eq hraw]⟩
    · rintro ⟨⟨⟨raw, hraw⟩, hall⟩, rfl⟩
      exact ⟨raw, hraw, _, ⟨hall, rfl⟩, by rw [edgesOf_eq hraw]⟩

theorem listed_iff : g.Listed ↔ ∀ id ∈ g.list, ∃ raw, g.getRaw id = .ok raw :=
  forall₂_congr fun _ hid => (getRaw_ok_iff hid).symm

theorem mem_following (h : g.Listed) {p : PyStr} :
    p ∈ Graph.following (g.list.flatMap g.edgesOf) id ↔ p ∈ g.dependents id := by
  have hedges : ∀ q ∈ g.list, g.edgesOf q = (g.frontmatter q).predecessors.map (·, q) :=
    fun q hq => edgesOf_eq (h q hq)
  simp only [Graph.following, Graph.dependents, List.mem_map, List.mem_filter, List.mem_flatMap, beq_iff_eq,
    decide_eq_true_eq]
  constructor
  · rintro ⟨e, ⟨⟨q, hq, he⟩, rfl⟩, rfl⟩
    rw [hedges q hq] at he
    obtain ⟨a, ha, rfl⟩ := List.mem_map.mp he
    exact ⟨hq, ha⟩
  · rintro ⟨hp, hid⟩
    refine ⟨(id, p), ⟨⟨p, hp, ?_⟩, rfl⟩, rfl⟩
    rw [hedges p hp]
    exact List.mem_map_of_mem hid

/-- The list of what to revoke is read off exactly where all active files are, and has what builds on the fact. -/
theorem withDescendants_ok (h : g.withDescendants factId = .ok ids) :
    (∃ more, ids = factId :: more) ∧ ids.Nodup ∧ ∀ id, id ∈ ids ↔ g.Cascades factId id := by
  rw [Graph.withDescendants] at h
  obtain ⟨edges, hedges, hids⟩ := Checks.bind_ok.mp h
  obtain ⟨hraw, rfl⟩ := reverseEdges_ok.mp hedges
  have hlisted := listed_iff.mpr hraw
  rw [Checks.pure_ok] at hids
  subst hids
  have hall : ∀ a, ∀ p ∈ Graph.following (g.list.flatMap g.edgesOf) a,
      p ∈ (g.list.flatMap g.edgesOf).map Prod.snd := by
    intro a p hp
    obtain ⟨e, he, rfl⟩ := List.mem_map.mp hp
    exact List.mem_map_of_mem (List.mem_filter.mp he).1
  have hfuel : ((g.list.flatMap g.edgesOf).map Prod.snd).length < (g.list.flatMap g.edgesOf).length + 1 := by
    rw [List.length_map]
    exact Nat.lt_succ_self _
  obtain ⟨hmore, hnodup, hmem⟩ := collect_spec hall hfuel factId
  refine ⟨hmore, hnodup, fun id => (hmem id).trans ⟨fun hr => ?_, fun hr => ?_⟩⟩
  · exact hr.closed (fun s hs => .seed hs) fun a ha p hp => .step ha ((mem_following hlisted).mp hp)
  · exact hr.closed (fun s hs => .seed hs) fun a ha p hp => .step ha ((mem_following hlisted).mpr hp)

theorem withDescendants_ok_iff : (∃ ids, g.withDescendants factId = .ok ids) ↔ g.Listed := by
  simp only [Graph.withDescendants, Checks.bind_ok, Checks.pure_ok, reverseEdges_ok, listed_iff]
  constructor
  · rintro ⟨_, _, ⟨h, -⟩, -⟩
    exact h
  · exact fun h => ⟨_, _, ⟨h, rfl⟩, rfl⟩

end Listing

section Rebuilding
variable {g : Graph} {ids : List PyStr} {rebuilt items l l' : List (PyStr × PyStr)} {item : PyStr × PyStr}

theorem functional_mono (h : Graph.Functional l') (hsub : ∀ kv ∈ l, kv ∈ l') : Graph.Functional l :=
  fun kv hkv kv' hkv' => h kv (hsub kv hkv) kv' (hsub kv' hkv')

theorem functional_congr (h : ∀ kv, kv ∈ l ↔ kv ∈ l') : Graph.Functional l ↔ Graph.Functional l' :=
  ⟨fun hl => functional_mono hl fun kv => (h kv).mpr, fun hl => functional_mono hl fun kv => (h kv).mp⟩

theorem functional_snoc (hr : Graph.Functional rebuilt) (hnone : rebuilt.lookup item.1 = none) :
    Graph.Functional (rebuilt ++ [item]) := by
  have hout : ∀ kv ∈ rebuilt, kv.1 ≠ item.1 := by
    rintro ⟨k, v⟩ hkv rfl
    exact notMem_of_lookup_eq_none hnone hkv
  intro kv hkv kv' hkv' hk
  rcases List.mem_append.mp hkv with h | h
  · rcases List.mem_append.mp hkv' with h' | h'
    · exact hr kv h kv' h' hk
    · rw [List.mem_singleton.mp h'] at hk
      exact absurd hk (hout kv h)
  · rcases List.mem_append.mp hkv' with h' | h'
    · rw [List.mem_singleton.mp h] at hk
      exact absurd hk.symm (hout kv' h')
    · rw [List.mem_singleton.mp h, List.mem_singleton.mp h']

theorem addTerms_ok (items : List (PyStr × PyStr)) (hr : Graph.Functional rebuilt) :
    ((∃ r, items.foldlM Graph.addTerm rebuilt = .ok r) ↔ Graph.Functional (rebuilt ++ items)) ∧
    ∀ r, items.foldlM Graph.addTerm rebuilt = .ok r → Graph.Functional r ∧ ∀ kv, kv ∈ r ↔ kv ∈ rebuilt ++ items := by
  induction items generalizing rebuilt with
  | nil =>
    simp only [List.foldlM_nil, Checks.pure_ok, List.append_nil, exists_eq', true_iff]
    refine ⟨hr, ?_⟩
    rintro r rfl
    exact ⟨hr, fun kv => Iff.rfl⟩
  | cons item items ih =>
    rw [List.foldlM_cons, Graph.addTerm]
    cases hprior : rebuilt.lookup item.1 with
    | some prior =>
      have hmem := mem_of_lookup_eq_some hprior
      by_cases heq : prior = item.2
      · subst heq
        have hsame : ∀ kv, kv ∈ rebuilt ++ item :: items ↔ kv ∈ rebuilt ++ items := by
          intro kv
          rw [List.mem_append, List.mem_append, List.mem_cons]
          refine ⟨?_, fun h => h.imp_right .inr⟩
          rintro (h | rfl | h)
          · exact .inl h
          · exact .inl hmem
          · exact .inr h
        obtain ⟨hiff, hres⟩ := ih hr
        simp only [ne_eq, not_true_eq_false, if_false]
        exact ⟨hiff.trans (functional_congr hsame).symm, fun r h =>
          ⟨(hres r h).1, fun kv => ((hres r h).2 kv).trans (hsame kv).symm⟩⟩
      · have hno : ¬ Graph.Functional (rebuilt ++ item :: items) := fun hf =>
          heq (hf (item.1, prior) (List.mem_append_left _ hmem) item (by simp) rfl)
        simp only [ne_eq, heq, not_false_eq_true, if_true]
        refine ⟨⟨?_, fun hf => absurd hf hno⟩, ?_⟩
        · rintro ⟨r, hr⟩
          cases hr
        · rintro r hr
          cases hr
    | none =>
      have hassoc : rebuilt ++ item :: items = (rebuilt ++ [item]) ++ items := by rw [List.append_assoc]; rfl
      rw [hassoc]
      exact ih (functional_snoc hr hprior)

variable [Runtime]

/-- The items that a fact defines. -/
def Graph.terms (g : Graph) (id : PyStr) : List (PyStr × PyStr) := (g.frontmatter id).glossaryIntroduces

theorem addFactTerms_eq {id : PyStr} (h : g.getRaw id = .ok (some (g.textOf id))) :
    g.addFactTerms rebuilt id = (do
      validateFactIntegrity (g.revoked.has id) id (g.textOf id) (g.frontmatter id)
      if (g.frontmatter id).glossaryEncodes = false then
        throw (.value "'utf-8' codec can't encode character: surrogates not allowed".toList)
      (Json.sortByKey (g.terms id)).foldlM Graph.addTerm rebuilt) := by
  rw [Graph.addFactTerms, h]
  rfl

theorem addFacts_ok (hread : ∀ id ∈ ids, g.getRaw id = .ok (some (g.textOf id))) (hr : Graph.Functional rebuilt) :
    (∃ r, ids.foldlM g.addFactTerms rebuilt = .ok r) ↔
    (∀ id ∈ ids, validateFactIntegrity (g.revoked.has id) id (g.textOf id) (g.frontmatter id) = .ok () ∧
      (g.frontmatter id).glossaryEncodes = true) ∧
    Graph.Functional (rebuilt ++ ids.flatMap g.terms) := by
  induction ids generalizing rebuilt with
  | nil => simpa [Checks.pure_ok] using hr
  | cons id ids ih =>
    rw [List.forall_mem_cons] at hread
    obtain ⟨hiff, hres⟩ := addTerms_ok (Json.sortByKey (g.terms id)) hr
    have hmerge : ∀ r, (∀ kv, kv ∈ r ↔ kv ∈ rebuilt ++ Json.sortByKey (g.terms id)) →
        ∀ kv, kv ∈ r ++ ids.flatMap g.terms ↔ kv ∈ rebuilt ++ (g.terms id ++ ids.flatMap g.terms) := by
      intro r hmem kv
      rw [List.mem_append, hmem, List.mem_append, (Json.sortByKey_perm _).mem_iff, List.mem_append, List.mem_append,
        or_assoc]
    simp only [List.foldlM_cons, addFactTerms_eq hread.1, Checks.bind_ok, Checks.unless_ok, Bool.not_eq_false,
      List.forall_mem_cons, List.flatMap_cons]
    constructor
    · rintro ⟨r, r', ⟨_, hvalid, hencodes, hterms⟩, hrest⟩
      obtain ⟨hr', hmem⟩ := hres r' hterms
      obtain ⟨hall, hfun⟩ := (ih hread.2 hr').mp ⟨r, hrest⟩
      exact ⟨⟨⟨hvalid, hencodes⟩, hall⟩, (functional_congr (hmerge r' hmem)).mp hfun⟩
    · rintro ⟨⟨⟨hvalid, hencodes⟩, hall⟩, hfun⟩
      have hfirst : Graph.Functional (rebuilt ++ Json.sortByKey (g.terms id)) := by
        refine functional_mono hfun fun kv hkv => ?_
        exact (hmerge _ (fun _ => Iff.rfl) kv).mp (List.mem_append_left _ hkv)
      obtain ⟨r', hr'⟩ := hiff.mpr hfirst
      obtain ⟨hfun', hmem⟩ := hres r' hr'
      obtain ⟨r, hrest⟩ := (ih hread.2 hfun').mpr ⟨hall, (functional_congr (hmerge r' hmem)).mpr hfun⟩
      exact ⟨r, r', ⟨(), hvalid, hencodes, hr'⟩, hrest⟩

end Rebuilding

section Moves
variable {g g' : Graph} {id : PyStr} {ids : List PyStr}

theorem has_remove (d : Directory) (id other : PyStr) :
    (d.remove id).has other = true ↔ d.has other = true ∧ other ≠ id := by
  rw [Directory.has_iff, Directory.has_iff]
  constructor
  · intro h
    obtain ⟨file, hfile, rfl⟩ := List.mem_map.mp h
    obtain ⟨hmem, hne⟩ := mem_eraseKey.mp hfile
    exact ⟨List.mem_map_of_mem hmem, hne⟩
  · rintro ⟨h, hne⟩
    obtain ⟨file, hfile, rfl⟩ := List.mem_map.mp h
    exact List.mem_map_of_mem (mem_eraseKey.mpr ⟨hfile, hne⟩)

theorem has_add (d : Directory) (id : PyStr) (text : FileText) (h : d.has id = false) (other : PyStr) :
    (d.add id text h).has other = true ↔ other = id ∨ d.has other = true := by
  rw [Directory.has_iff, Directory.has_iff, Directory.add, List.map_cons, List.mem_cons]

/-- The moves touch the two directories alone. -/
theorem moveFacts_keep (ids : List PyStr) (g : Graph) :
    (moveFacts ids g).2.pendingRevocation = g.pendingRevocation ∧
    (moveFacts ids g).2.revocationLog = g.revocationLog := by
  induction ids generalizing g with
  | nil => exact ⟨rfl, rfl⟩
  | cons id ids ih =>
    rw [moveFacts]
    split
    · exact ⟨rfl, rfl⟩
    · exact ih _
    · exact ih _
    · exact ⟨rfl, rfl⟩

theorem moveFacts_ok (hn : ids.Nodup) (hactive : ∀ id ∈ ids, g.facts.has id = true) :
    (moveFacts ids g).1 = .ok () ↔ ∀ id ∈ ids, g.revoked.has id = false := by
  induction ids generalizing g with
  | nil => simp [moveFacts]
  | cons id ids ih =>
    obtain ⟨hnew, hn⟩ := List.nodup_cons.mp hn
    rw [List.forall_mem_cons] at hactive
    have hlookup := hactive.1
    rw [Directory.has, Option.isSome_iff_exists] at hlookup
    obtain ⟨file, hfile⟩ := hlookup
    rw [moveFacts, List.forall_mem_cons]
    split
    · rename_i hrev
      rw [hrev]
      simp
    · rename_i text htext hrev
      have hrest : ∀ other ∈ ids, (g.facts.remove id).has other = true := fun other ho =>
        (has_remove _ _ _).mpr ⟨hactive.2 other ho, fun he => hnew (he ▸ ho)⟩
      rw [ih hn hrest, and_iff_right hrev]
      refine forall₂_congr fun other ho => ?_
      have hne : other ≠ id := fun he => hnew (he ▸ ho)
      have hiff := has_add g.revoked id text hrev other
      rw [or_iff_right hne] at hiff
      rw [← Bool.not_eq_true, ← Bool.not_eq_true, hiff]
    · rename_i hnone _
      rw [hfile] at hnone
      cases hnone
    · rename_i hnone _
      rw [hfile] at hnone
      cases hnone

end Moves

section Log
variable {lines : List PyStr} {text : FileText}

theorem logEntries_ok (n : Nat) : (∃ entries, logEntries n lines = .ok entries) ↔
    ∀ line ∈ lines, strip line ≠ [] → ∃ entry, Json.parse line = some (.obj entry) := by
  induction lines generalizing n with
  | nil => simp [logEntries]
  | cons line lines ih =>
    rw [logEntries, List.forall_mem_cons]
    by_cases hblank : strip line = []
    · rw [if_pos hblank, ih]
      simp [hblank]
    · rw [if_neg hblank]
      split
      · rename_i entry hentry
        simp only [Checks.map_ok, hentry]
        rw [← ih (n + 1)]
        constructor
        · rintro ⟨_, entries, hentries, -⟩
          exact ⟨fun _ => ⟨entry, rfl⟩, entries, hentries⟩
        · rintro ⟨-, entries, hentries⟩
          exact ⟨_, entries, hentries, rfl⟩
      · rename_i hno
        constructor
        · rintro ⟨_, h⟩
          cases h
        · rintro ⟨h, -⟩
          obtain ⟨entry, hentry⟩ := h hblank
          exact absurd hentry (hno entry)

theorem readLog_ok (log : Option FileText) : (∃ entries, readRevocationLogStrict log = .ok entries) ↔
    ∀ text, log = some text → ∃ raw, text = .ok raw ∧
      ∀ line ∈ splitlines raw, strip line ≠ [] → ∃ entry, Json.parse line = some (.obj entry) := by
  cases log with
  | none => simp [readRevocationLogStrict]
  | some text =>
    cases text with
    | error message =>
      constructor
      · rintro ⟨_, h⟩
        cases h
      · intro h
        obtain ⟨_, hraw, -⟩ := h _ rfl
        cases hraw
    | ok raw =>
      have hread : readRevocationLogStrict (some (.ok raw)) = logEntries 1 (splitlines raw) := rfl
      rw [hread, logEntries_ok]
      refine ⟨fun h text ht => ?_, fun h => ?_⟩
      · cases ht
        exact ⟨raw, rfl, h⟩
      · obtain ⟨raw', hraw, hlines⟩ := h _ rfl
        cases hraw
        exact hlines

end Log

section Resume
variable {g : Graph} {pending : Pending}

theorem strings_map (ids : List PyStr) : strings (ids.map .str) = some ids := by
  induction ids with
  | nil => rfl
  | cons id ids ih => rw [List.map_cons, strings, ih]; rfl

theorem distinctItems_strings (ids : List PyStr) : Json.distinctItems (ids.map .str) = true := by
  induction ids with
  | nil => rfl
  | cons id ids ih => rw [List.map_cons, Json.distinctItems, ih]; rfl

/-- The journal is read back. -/
theorem loadPending_journal (hhead : pending.factIds.head? = some pending.rootFactId) (hn : pending.factIds.Nodup)
    (hsafe : ∀ id ∈ pending.factIds, isSafeFactId id = true) :
    loadPending (some (.ok (journalText pending))) = .ok (some pending) := by
  let fields : List (PyStr × Json) := [("fact_ids".toList, .arr (pending.factIds.map .str)),
    ("reason".toList, .str pending.reason), ("revocation_id".toList, .str pending.revocationId),
    ("root_fact_id".toList, .str pending.rootFactId), ("schema_version".toList, .int 1),
    ("timestamp_utc".toList, .str pending.timestampUtc)]
  have hsorted : ∀ a b c d e f : PyStr, Json.sortByKey [("schema_version".toList, a), ("revocation_id".toList, b),
      ("timestamp_utc".toList, c), ("root_fact_id".toList, d), ("reason".toList, e), ("fact_ids".toList, f)] =
      [("fact_ids".toList, f), ("reason".toList, e), ("revocation_id".toList, b), ("root_fact_id".toList, d),
        ("schema_version".toList, a), ("timestamp_utc".toList, c)] := fun _ _ _ _ _ _ => rfl
  have hitems : ∀ items, Json.dumpsItems (Json.spaced false true) (List.map Json.str items) =
      Json.dumpsItems (Json.spaced false false) (List.map Json.str items) := by
    intro items
    induction items with
    | nil => rfl
    | cons id ids ih => exact congrArg (Json.quote false id :: ·) ih
  have htext : journalText pending = (Json.obj fields).dumps (Json.spaced false false) ++ ['\n'] := by
    simp only [journalText, fields, Json.dumps, Json.dumpsFields, hitems]
    simp only [Json.spaced, if_true, Bool.false_eq_true, if_false, hsorted]
  have hdistinct : (Json.obj fields).distinctKeys = true := by
    have hkeys : ["fact_ids".toList, "reason".toList, "revocation_id".toList, "root_fact_id".toList,
      "schema_version".toList, "timestamp_utc".toList].Nodup := by decide
    have hids := distinctItems_strings pending.factIds
    simp only [Json.distinctKeys, fields, List.map_cons, List.map_nil, hkeys, decide_true, Bool.true_and,
      Json.distinctFields, hids]
  have hparse : Json.parse (journalText pending) = some (.obj fields) := by
    rw [htext]
    exact Json.parse_dumps false hdistinct (by decide)
  have hroot : isSafeFactId pending.rootFactId = true := hsafe _ (List.mem_of_head? hhead)
  have hstrings : strings (pending.factIds.map .str) = some pending.factIds := strings_map _
  have hchecks : isSafeFactId pending.rootFactId = true ∧ pending.factIds.head? = some pending.rootFactId ∧
    pending.factIds.Nodup ∧ ∀ id ∈ pending.factIds, isSafeFactId id = true := ⟨hroot, hhead, hn, hsafe⟩
  simp only [loadPending, readText, Except.mapError, Checks.bind_ok]
  refine ⟨_, rfl, ?_⟩
  have h1 : equalsOne (fields.lookup "schema_version".toList) = true := rfl
  have h2 : fields.lookup "revocation_id".toList = some (.str pending.revocationId) := rfl
  have h3 : fields.lookup "timestamp_utc".toList = some (.str pending.timestampUtc) := rfl
  have h4 : fields.lookup "reason".toList = some (.str pending.reason) := rfl
  have h5 : fields.lookup "root_fact_id".toList = some (.str pending.rootFactId) := rfl
  have h6 : fields.lookup "fact_ids".toList = some (.arr (pending.factIds.map .str)) := rfl
  simp only [hparse, h1, h2, h3, h4, h5, h6, hstrings, if_pos hchecks]
  rfl

variable [Runtime]

/-- Without a journal there is nothing to resume. -/
theorem resumePending_idle (h : g.pendingRevocation = none) : resumePending g = (.ok none, g) := by
  rw [resumePending, h]
  rfl

/-- What `_resume_pending_revocation_unlocked` needs to finish. -/
structure Finishes (g : Graph) (ids : List PyStr) : Prop where
  rebuilt : ∃ r, g.activeGlossaryExcluding ids = .ok r
  unmoved : ∀ id ∈ ids, g.revoked.has id = false
  logged : ∃ entries, readRevocationLogStrict g.revocationLog = .ok entries

/-- Resuming a journal finishes, or it raises and the journal stays. -/
theorem resumePending_journal (hload : loadPending g.pendingRevocation = .ok (some pending))
    (hn : pending.factIds.Nodup) (hactive : ∀ id ∈ pending.factIds, g.facts.has id = true) :
    (Finishes g pending.factIds ∧ (resumePending g).1 = .ok (some pending)) ∨
    (¬ Finishes g pending.factIds ∧ ∃ e, (resumePending g).1 = .error e ∧
      (resumePending g).2.pendingRevocation = g.pendingRevocation) := by
  cases hrebuilt : g.activeGlossaryExcluding pending.factIds with
  | error e =>
    have hres : resumePending g = (.error e, g) := by simp only [resumePending, hload, hrebuilt]
    refine .inr ⟨fun h => ?_, e, congrArg Prod.fst hres, congrArg (fun r => r.2.pendingRevocation) hres⟩
    obtain ⟨r, hr⟩ := h.rebuilt
    rw [hrebuilt] at hr
    cases hr
  | ok rebuilt =>
    let cleared : Graph := { g with glossary := some (.ok (glossaryFile rebuilt)) }
    have hmoved := moveFacts_ok (g := cleared) hn hactive
    obtain ⟨hpending, hlog⟩ := moveFacts_keep pending.factIds cleared
    rcases hmoves : moveFacts pending.factIds cleared with ⟨e | u, g'⟩
    all_goals rw [hmoves] at hmoved hpending hlog
    · have hres : resumePending g = (.error e, g') := by
        simp only [cleared] at hmoves
        simp only [resumePending, hload, hrebuilt, hmoves]
      refine .inr ⟨fun h => ?_, e, congrArg Prod.fst hres, ?_⟩
      · cases hmoved.mpr h.unmoved
      · rw [hres]
        exact hpending
    · simp only [cleared] at hmoves hlog
      cases hentries : readRevocationLogStrict g.revocationLog with
      | error e =>
        have hres : resumePending g = (.error e, g') := by
          simp only [resumePending, hload, hrebuilt, hmoves, hlog, hentries]
        refine .inr ⟨fun h => ?_, e, congrArg Prod.fst hres, ?_⟩
        · obtain ⟨entries, he⟩ := h.logged
          rw [hentries] at he
          cases he
        · rw [hres]
          exact hpending
      | ok entries =>
        refine .inl ⟨⟨⟨rebuilt, hrebuilt⟩, hmoved.mp rfl, entries, hentries⟩, ?_⟩
        simp only [resumePending, hload, hrebuilt, hmoves, hlog, hentries]

end Resume

section Refusal
variable [Runtime] {g : Graph} {factId : PyStr} {ids : List PyStr} {reason : Reason}

theorem finishes_iff (hg : g.Listed) (hids : ∀ id, id ∈ ids ↔ g.Cascades factId id) :
    Finishes g ids ↔ g.Revocable factId := by
  let kept := g.list.filter (· ∉ ids)
  have hkept : ∀ id, id ∈ kept ↔ id ∈ g.list ∧ ¬ g.Cascades factId id := by
    intro id
    rw [List.mem_filter, decide_eq_true_eq, hids]
  have hread : ∀ id ∈ kept, g.getRaw id = .ok (some (g.textOf id)) := fun id hid => hg id ((hkept id).mp hid).1
  have hempty : Graph.Functional [] := fun kv hkv => absurd hkv List.not_mem_nil
  have hrebuilt := addFacts_ok hread hempty
  rw [List.nil_append] at hrebuilt
  constructor
  · intro h
    obtain ⟨hvalid, hfun⟩ := hrebuilt.mp h.rebuilt
    refine ⟨fun id hid hc => (hvalid id ((hkept id).mpr ⟨hid, hc⟩)).1, ?_,
      fun id hid hc => (hvalid id ((hkept id).mpr ⟨hid, hc⟩)).2, fun id hc => h.unmoved id ((hids id).mpr hc),
      (readLog_ok _).mp h.logged⟩
    intro id hid hc id' hid' hc' kv hkv kv' hkv'
    exact hfun kv (List.mem_flatMap.mpr ⟨id, (hkept id).mpr ⟨hid, hc⟩, hkv⟩)
      kv' (List.mem_flatMap.mpr ⟨id', (hkept id').mpr ⟨hid', hc'⟩, hkv'⟩)
  · intro h
    refine ⟨hrebuilt.mpr ⟨fun id hid => ?_, fun kv hkv kv' hkv' => ?_⟩, fun id hid => h.unmoved id ((hids id).mp hid),
      (readLog_ok _).mpr h.logged⟩
    · obtain ⟨hl, hc⟩ := (hkept id).mp hid
      exact ⟨h.intact id hl hc, h.encodable id hl hc⟩
    · obtain ⟨id, hid, hterm⟩ := List.mem_flatMap.mp hkv
      obtain ⟨id', hid', hterm'⟩ := List.mem_flatMap.mp hkv'
      obtain ⟨hl, hc⟩ := (hkept id).mp hid
      obtain ⟨hl', hc'⟩ := (hkept id').mp hid'
      exact h.agreeing id hl hc id' hl' hc' kv hterm kv' hterm'

variable (revocationId timestampUtc : PyStr)

/-- A call that does not get as far as its journal raises or returns without a write. -/
theorem revokeUnlocked_early (h : ¬ g.Journalled factId reason) :
    (revokeUnlocked g revocationId timestampUtc factId reason).2 = g := by
  cases reason with
  | other => rfl
  | unencodable message =>
    rw [revokeUnlocked]
    split
    · rfl
    · split <;> rfl
  | text s =>
    rw [revokeUnlocked]
    split
    · rfl
    · rename_i hhas
      split
      · rfl
      · rename_i ids hids
        exact absurd ⟨⟨s, rfl⟩, by simpa using hhas, withDescendants_ok_iff.mp ⟨ids, hids⟩⟩ h

/-- A call that gets as far as its journal finishes, or it raises and its journal stays. -/
theorem revokeUnlocked_journalled (h : g.Journalled factId reason) :
    (g.Revocable factId ∧ ∃ ids, (revokeUnlocked g revocationId timestampUtc factId reason).1 = .ok ids) ∨
    (¬ g.Revocable factId ∧ ∃ e, (revokeUnlocked g revocationId timestampUtc factId reason).1 = .error e ∧
      (revokeUnlocked g revocationId timestampUtc factId reason).2.pendingRevocation.isSome = true) := by
  obtain ⟨⟨s, rfl⟩, hhas, hlisted⟩ := h
  obtain ⟨ids, hids⟩ := withDescendants_ok_iff.mpr hlisted
  obtain ⟨⟨more, hmore⟩, hn, hmem⟩ := withDescendants_ok hids
  have hactive : ∀ id ∈ ids, g.facts.has id = true ∧ isSafeFactId id = true := by
    have hroot : isSafeFactId factId = true ∧ g.facts.has factId = true := by
      rwa [Graph.has, Bool.and_eq_true] at hhas
    intro id hid
    refine ((hmem id).mp hid).closed (P := fun id => g.facts.has id = true ∧ isSafeFactId id = true) ?_ ?_
    · intro a ha
      rw [List.mem_singleton.mp ha]
      exact hroot.symm
    · intro a _ p hp
      have hlist := (List.mem_filter.mp hp).1
      refine ⟨mem_list.mp hlist, ?_⟩
      have hraw := hlisted p hlist
      rw [Graph.getRaw] at hraw
      split at hraw
      · assumption
      · cases hraw
  let pending : Pending := ⟨revocationId, timestampUtc, factId, s, ids⟩
  have hhead : pending.factIds.head? = some pending.rootFactId := congrArg List.head? hmore
  have hload := loadPending_journal hhead hn fun id hid => (hactive id hid).2
  have hlisted' := finishes_iff hlisted hmem
  have hresume := resumePending_journal (g := { g with pendingRevocation := some (.ok (journalText pending)) }) hload
    hn fun id hid => (hactive id hid).1
  have hsame : Finishes { g with pendingRevocation := some (.ok (journalText pending)) } ids ↔ Finishes g ids :=
    ⟨fun h => ⟨h.rebuilt, h.unmoved, h.logged⟩, fun h => ⟨h.rebuilt, h.unmoved, h.logged⟩⟩
  rw [show pending.factIds = ids from rfl, hsame, hlisted'] at hresume
  have hnot : ¬ ¬ g.has factId = true := not_not.mpr hhas
  rw [revokeUnlocked, if_neg hnot, hids]
  rcases hres : resumePending { g with pendingRevocation := some (.ok (journalText pending)) } with ⟨_ | r, g'⟩
  all_goals rw [hres] at hresume
  · rename_i e
    rcases hresume with ⟨-, h⟩ | ⟨hno, e', -, hkeep⟩
    · cases h
    · refine .inr ⟨hno, e, ?_⟩
      simp only [pending] at hres
      simp only [hres, true_and]
      rw [hkeep]
      rfl
  · rcases hresume with ⟨hyes, h⟩ | ⟨-, e', h, -⟩
    · cases h
      refine .inl ⟨hyes, ids, ?_⟩
      simp only [pending] at hres
      simp only [hres]
    · cases h

end Refusal

/-- Two imported facts; the second one's file does not name its own id. -/
def misnamedGraph : Graph where
  facts := ⟨[("a".toList, .ok "---\nfact_id: a\n---\n".toList), ("b".toList, .ok "---\nfact_id: c\n---\n".toList)],
    by decide⟩
  revoked := ⟨[], List.nodup_nil⟩
  glossary := none
  revocationLog := none
  pendingRevocation := none

end Danus.FactGraph.Revocation
