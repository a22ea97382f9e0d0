import Danus.FactGraph.Bibliography
import Danus.FactGraph.Cascades
import Danus.FactGraph.Definitions

/-! Adding a fact to the graph, and what its files read as afterwards. -/
namespace Danus.FactGraph.Additions
open Python Revocation Contexts

section Source

/-- What a file reads as once this text is written to it. -/
def writtenText (text : PyStr) : FileText := .ok (universalNewlines text)

/-- The directory after an atomic replace. -/
def replaceFile (d : Directory) (id : PyStr) (text : FileText) : Directory :=
  (d.remove id).add id text (has_eq_false.mpr (by rw [lookup_remove, if_pos rfl]))

/-- What the id of a fact is computed from. -/
structure Content where
  problemId : PyStr
  predecessors : List PyStr
  glossaryIntroduces : List (PyStr × PyStr)
  statement : PyStr
  proof : PyStr

def Content.factId (c : Content) : PyStr :=
  computeFactId c.problemId c.predecessors c.glossaryIntroduces c.statement c.proof

/-- What `_canonical_fact_identity_unlocked` says of a fact in a graph: its full identity, which is a digest, or why
it has none. -/
structure Identities where
  canonical : Graph → Content → Except GraphError PyStr
  isHex : ∀ {g : Graph} {c : Content} {identity : PyStr},
    canonical g c = .ok identity → isHexOf 64 identity = true

/-- The arguments of `add`, with the references as `clean_external_refs` leaves them. -/
structure AddCall where
  problemId : PyStr
  author : PyStr
  statement : PyStr
  proof : PyStr
  predecessors : List PyStr
  glossaryIntroduces : List (PyStr × PyStr)
  intuition : PyStr
  externalRefs : List ExternalRef
  glossary_keys : (glossaryIntroduces.map Prod.fst).Nodup

def AddCall.content (call : AddCall) : Content where
  problemId := call.problemId
  predecessors := call.predecessors.filter (· ≠ [])
  glossaryIntroduces := call.glossaryIntroduces
  statement := call.statement
  proof := call.proof

/-- What `_add_unlocked` comes to before its first write. -/
inductive Addition where
  | existing (factId : PyStr)
  | new (fact : Fact) (merged : List (PyStr × PyStr))

variable [Runtime]

/-- The predecessor checks of `_add_unlocked`. -/
def checkPredecessors (g : Graph) : List PyStr → Except GraphError Unit
  | [] => .ok ()
  | pid :: pids =>
    if isSafeFactId pid = false then .error (Graph.invalidFactId pid)
    else if g.revoked.has pid then .error (.value ("predecessor_revoked: ".toList ++ pid))
    else if g.facts.has pid = false then .error (.value ("predecessor_unknown: ".toList ++ pid))
    else checkPredecessors g pids

/-- `_glossary_conflicts_against` -/
def glossaryConflictsAgainst (current new : List (PyStr × PyStr)) : List PyStr :=
  sortStr ((new.filter fun kv => (current.lookup kv.1).any (· != kv.2) ||
    (Runtime.globalGlossary.lookup kv.1).any (· != kv.2)).map Prod.fst)

/-- `_prepare_glossary_merge` -/
def prepareGlossaryMerge (g : Graph) (new : List (PyStr × PyStr)) : Except GraphError (List (PyStr × PyStr)) := do
  let current ← readProjectGlossary g
  let conflicts := glossaryConflictsAgainst current new
  if conflicts ≠ [] then
    throw (.value
      ("glossary_conflict: refusing to redefine project terms: ".toList ++ joinWith ", ".toList conflicts))
  return new.foldl Contexts.setTerm current

variable (I : Identities)

/-- `_lookup_active_exact_identity_unlocked`, without the identity that it returns with the id. -/
def lookupActiveExact (g : Graph) (c : Content) : Except GraphError (Option PyStr) := do
  match ← g.getRaw c.factId with
  | none => return none
  | some raw =>
    let frontmatter := parseFrontmatter raw
    validateFactIntegrity (g.revoked.has c.factId) c.factId raw frontmatter
    let candidate ← I.canonical g c
    let existing ← I.canonical g ⟨frontmatter.problemId, frontmatter.predecessors, frontmatter.glossaryIntroduces,
      statementOf raw, proofOf raw⟩
    if frontmatter.factIdentity.any (· != existing) then
      throw (.value ("fact_integrity_error: full identity mismatch for ".toList ++ c.factId))
    if candidate ≠ existing then
      throw (.value ("fact_identity_collision: short fact_id ".toList ++ c.factId ++
        " maps to a different full identity".toList))
    return some c.factId

/-- `_add_unlocked` up to its journal. -/
def prepareAdd (g : Graph) (call : AddCall) : Except GraphError Addition := do
  let c := call.content
  checkFields c.problemId call.author c.statement call.intuition c.predecessors
  checkPredecessors g c.predecessors
  if g.revoked.has c.factId then throw (.value ("fact_revoked: ".toList ++ c.factId))
  match ← lookupActiveExact I g c with
  | some factId => return .existing factId
  | none =>
    let factIdentity ← I.canonical g c
    let merged ← prepareGlossaryMerge g c.glossaryIntroduces
    return .new {
      factId := c.factId
      problemId := c.problemId
      author := call.author
      predecessors := c.predecessors
      statement := c.statement
      proof := c.proof
      glossaryIntroduces := c.glossaryIntroduces
      intuition := call.intuition
      factIdentity := factIdentity
      externalRefs := call.externalRefs
      glossary_keys := call.glossary_keys } merged

/-- The graph with a new fact: its file, and the glossary with its terms where it has some. -/
def withFact (g : Graph) (fact : Fact) (merged : List (PyStr × PyStr)) : Graph where
  facts := replaceFile g.facts fact.factId (writtenText (serializeFact fact))
  revoked := g.revoked
  glossary := if fact.glossaryIntroduces = [] then g.glossary else some (.ok (glossaryFile merged))
  revocationLog := g.revocationLog
  pendingRevocation := g.pendingRevocation

/-- `add`, whose own journal is written and deleted in between. -/
def add (g : Graph) (call : AddCall) : Outcome PyStr :=
  match resumePending g with
  | (.error e, g) => (.error e, g)
  | (.ok _, g) =>
    match prepareAdd I g call with
    | .error e => (.error e, g)
    | .ok (.existing factId) => (.ok factId, g)
    | .ok (.new fact merged) => (.ok fact.factId, withFact g fact merged)

/-- `set_external_refs` with the references as `clean_external_refs` leaves them. -/
def setRefs (g : Graph) (factId : PyStr) (refs : List ExternalRef) : Outcome Unit :=
  match resumePending g with
  | (.error e, g) => (.error e, g)
  | (.ok _, g) =>
    match g.getRaw factId with
    | .error e => (.error e, g)
    | .ok none => (.error (.value ("unknown fact_id: ".toList ++ factId)), g)
    | .ok (some raw) =>
      match setExternalRefs factId refs raw with
      | .error e => (.error e, g)
      | .ok file => (.ok (), { g with facts := replaceFile g.facts factId (writtenText file) })

end Source

section Indented
open Json

/-- A term and its definition in the file of the glossary. -/
def glossaryItem (kv : PyStr × PyStr) : PyStr := quote false kv.1 ++ (": ".toList ++ quote false kv.2)

/-- The rest of the glossary's file after an item. -/
def afterItem : List (PyStr × PyStr) → PyStr
  | [] => "\n\x7d\n".toList
  | kv :: kvs => ",\n  ".toList ++ (glossaryItem kv ++ afterItem kvs)

theorem afterItem_nil : afterItem [] = "\n\x7d\n".toList := rfl

theorem afterItem_cons (kv : PyStr × PyStr) (kvs : List (PyStr × PyStr)) :
    afterItem (kv :: kvs) = ",\n  ".toList ++ (glossaryItem kv ++ afterItem kvs) := rfl

theorem glossaryFile_cons {terms : List (PyStr × PyStr)} {kv : PyStr × PyStr} {kvs : List (PyStr × PyStr)}
    (h : sortByKey terms = kv :: kvs) :
    glossaryFile terms = "\x7b\n  ".toList ++ (glossaryItem kv ++ afterItem kvs) := by
  have hne : terms ≠ [] := by
    rintro rfl
    cases h
  have hjoin : ∀ (kv : PyStr × PyStr) (kvs : List (PyStr × PyStr)),
      joinWith ",\n".toList ((kv :: kvs).map fun kv =>
        "  ".toList ++ quote false kv.1 ++ ": ".toList ++ quote false kv.2) ++ "\n\x7d\n".toList =
      "  ".toList ++ (glossaryItem kv ++ afterItem kvs) := by
    intro kv kvs
    induction kvs generalizing kv with
    | nil =>
      rw [List.map_cons, List.map_nil, joinWith_singleton]
      simp only [glossaryItem, afterItem_nil, List.append_assoc]
    | cons kv' kvs ih =>
      have hrest := ih kv'
      rw [List.map_cons] at hrest ⊢
      rw [List.map_cons, joinWith_cons_cons, List.append_assoc, List.append_assoc ",\n".toList, hrest]
      simp only [glossaryItem, afterItem_cons, List.append_assoc]
      rfl
  rw [glossaryFile, if_neg hne, h, List.append_assoc, hjoin]
  rfl

theorem scanFields_glossary (kv : PyStr × PyStr) (kvs : List (PyStr × PyStr)) (n d : Nat) (hn : kvs.length + 2 ≤ n) :
    scanFields plainHooks n d (glossaryItem kv ++ afterItem kvs) =
      some ((kv :: kvs).map fun kv => (kv.1, Json.str kv.2), ['\n']) := by
  induction kvs generalizing kv n with
  | nil =>
    obtain ⟨n, rfl⟩ : ∃ m, n = m + 2 := ⟨n - 2, by simp at hn; omega⟩
    have htext : glossaryItem kv ++ afterItem [] =
        '"' :: (kv.1.flatMap (escapeChar false) ++ '"' :: ':' :: ' ' :: '"' ::
          (kv.2.flatMap (escapeChar false) ++ '"' :: "\n\x7d\n".toList)) := by
      simp only [glossaryItem, afterItem_nil, quote, List.append_assoc, List.cons_append, List.nil_append]
      rfl
    have hvalue : skipSpace (' ' :: '"' :: (kv.2.flatMap (escapeChar false) ++ '"' :: "\n\x7d\n".toList)) =
        '"' :: (kv.2.flatMap (escapeChar false) ++ '"' :: "\n\x7d\n".toList) := rfl
    have hend : skipSpace "\n\x7d\n".toList = "\x7d\n".toList := rfl
    rw [htext, scanFields, scanString_quoted]
    simp only [Option.bind_some, skipSpace_colon, hvalue, scanValue, if_true, scanString_quoted, Option.map_some,
      hend]
    rfl
  | cons kv' kvs ih =>
    obtain ⟨n, rfl⟩ : ∃ m, n = m + 2 := ⟨n - 2, by simp at hn; omega⟩
    have hrest := ih kv' (n + 1) (by simp at hn; omega)
    have htext : glossaryItem kv ++ afterItem (kv' :: kvs) =
        '"' :: (kv.1.flatMap (escapeChar false) ++ '"' :: ':' :: ' ' :: '"' ::
          (kv.2.flatMap (escapeChar false) ++ '"' :: ',' :: '\n' :: ' ' :: ' ' ::
            (glossaryItem kv' ++ afterItem kvs))) := by
      simp only [glossaryItem, afterItem_cons, quote, List.append_assoc, List.cons_append, List.nil_append]
      rfl
    have hvalue : ∀ t : PyStr, skipSpace (' ' :: '"' :: t) = '"' :: t := fun t => rfl
    have hnext : skipSpace ('\n' :: ' ' :: ' ' :: (glossaryItem kv' ++ afterItem kvs)) =
        glossaryItem kv' ++ afterItem kvs := rfl
    rw [htext, scanFields, scanString_quoted]
    simp only [Option.bind_some, skipSpace_colon, hvalue, scanValue, if_true, scanString_quoted, Option.map_some,
      skipSpace_comma, hnext, hrest]
    rfl

/-- The file of the glossary is read back, its terms sorted. -/
theorem parse_glossaryFile {terms : List (PyStr × PyStr)} (hn : (terms.map Prod.fst).Nodup) :
    Json.parse (glossaryFile terms) = some (ofDict (sortByKey terms)) := by
  cases hsort : sortByKey terms with
  | nil =>
    have hnil : terms = [] := List.Perm.eq_nil (hsort ▸ (sortByKey_perm terms).symm)
    have hempty : skipSpace "\x7b\x7d\n".toList = '\x7b' :: "\x7d\n".toList := rfl
    have hlength : "\x7b\x7d\n".toList.length = 3 := rfl
    have hclose : skipSpace "\x7d\n".toList = '\x7d' :: ['\n'] := rfl
    rw [hnil, glossaryFile, if_pos rfl, Json.parse, loads, hempty, hlength, scanValue, if_neg (by decide),
      if_neg (by decide), if_pos rfl, scanObject, hclose]
    rfl
  | cons kv kvs =>
    have hkeys : (((kv :: kvs).map fun kv => (kv.1, Json.str kv.2)).map Prod.fst).Nodup := by
      rw [List.map_map, ← hsort]
      exact ((sortByKey_perm terms).map _).nodup_iff.mpr hn
    have hset : ((kv :: kvs).map fun kv => (kv.1, Json.str kv.2)).foldl setItem [] =
        [] ++ (kv :: kvs).map fun kv => (kv.1, Json.str kv.2) := setItems_append hkeys
    have hlength : kvs.length ≤ (afterItem kvs).length := by
      clear hsort hkeys hset
      induction kvs with
      | nil => exact Nat.zero_le _
      | cons kv' kvs ih =>
        simp only [afterItem_cons, List.length_append, List.length_cons]
        have hcomma : ",\n  ".toList.length = 4 := rfl
        omega
    have hopen : ∀ t : PyStr, skipSpace ("\x7b\n  ".toList ++ t) = '\x7b' :: '\n' :: ' ' :: ' ' :: t := fun t => rfl
    have hspace : skipSpace ('\n' :: ' ' :: ' ' :: (glossaryItem kv ++ afterItem kvs)) =
        '"' :: (kv.1.flatMap (escapeChar false) ++ ['"'] ++ (": ".toList ++ quote false kv.2) ++ afterItem kvs) := rfl
    have hitem : '"' ::
        (kv.1.flatMap (escapeChar false) ++ ['"'] ++ (": ".toList ++ quote false kv.2) ++ afterItem kvs) =
          glossaryItem kv ++ afterItem kvs := rfl
    obtain ⟨m, hm⟩ : ∃ m, (glossaryFile terms).length = m + 4 + kvs.length := by
      refine ⟨(glossaryFile terms).length - 4 - kvs.length, ?_⟩
      rw [glossaryFile_cons hsort]
      simp only [List.length_append]
      have hmark : "\x7b\n  ".toList.length = 4 := rfl
      omega
    rw [Json.parse, loads, hm, glossaryFile_cons hsort, hopen]
    have hfuel : 3 * (m + 4 + kvs.length) + 1 = (3 * m + 10 + 3 * kvs.length) + 1 + 1 + 1 := by omega
    have hdepth : m + 4 + kvs.length = m + 3 + kvs.length + 1 := by omega
    rw [hfuel, hdepth, scanValue, if_neg (by decide), if_neg (by decide), if_pos rfl,
      scanObject_cons plainHooks hspace (by decide), hitem, scanFields_glossary _ _ _ _ (by omega)]
    simp only [Option.bind_some, plainHooks, hset, List.nil_append, Option.map_some]
    rfl

theorem stringItems_map (items : List (PyStr × PyStr)) :
    stringItems (items.map fun kv => (kv.1, Json.str kv.2)) = some items := by
  induction items with
  | nil => rfl
  | cons kv items ih =>
    rw [List.map_cons, stringItems, ih]
    rfl

end Indented

end Danus.FactGraph.Additions
