import Danus.FactGraph.Definitions
import Danus.Lib.Layers

/-! The context that a worker or the verifier is shown: facts around those asked for, and definitions, within a
budget. -/
namespace Danus.FactGraph.Contexts
open Python Revocation Searches

section Source

/-- `proof_mode` -/
inductive ProofMode where
  | none | selected | all
  deriving DecidableEq

def ProofMode.text : ProofMode → PyStr
  | .none => "none".toList
  | .selected => "selected".toList
  | .all => "all".toList

/-- A record of `_context_unlocked`. -/
structure Record where
  factId : PyStr
  statement : PyStr
  predecessors : List PyStr
  glossaryIntroduces : List (PyStr × PyStr)
  proof : Option PyStr

def Record.json (r : Record) : Json :=
  .obj ([("fact_id".toList, .str r.factId), ("statement".toList, .str r.statement),
    ("predecessors".toList, .arr (r.predecessors.map .str)),
    ("glossary_introduces".toList, Json.ofDict r.glossaryIntroduces)] ++
    (r.proof.map fun proof => ("proof".toList, Json.str proof)).toList)

/-- `record_chars` -/
def Record.chars (r : Record) : Nat := (r.json.dumps (Json.compact false true)).length

/-- `glossary_chars` -/
def termChars (kv : PyStr × PyStr) : Nat :=
  ((Json.obj [("term".toList, .str kv.1), ("definition".toList, .str kv.2)]).dumps (Json.compact false true)).length

/-- The texts in which a record refers to definitions. -/
def Record.texts (r : Record) : List PyStr := r.statement :: (r.glossaryIntroduces.map Prod.snd ++ r.proof.toList)

/-- What the search has found so far. -/
structure Found where
  records : List Record
  missing : List PyStr
  revoked : List PyStr

/-- The arguments of `_context_unlocked` that pass its checks. -/
structure ContextCall where
  factIds : List PyStr
  predecessorDepth : Option Nat
  proofMode : ProofMode
  maxChars : Option Nat
  glossaryTexts : List PyStr
  glossaryExcludeTerms : List PyStr
  includeProjectGlossary : Bool

namespace ContextCall
variable (call : ContextCall)

def roots : List PyStr := fresh [] (call.factIds.filter (· ≠ []))

def showsProof (factId : PyStr) : Bool :=
  call.proofMode == .all || (call.proofMode == .selected && decide (factId ∈ call.roots))

variable [Runtime]

def record (factId raw : PyStr) : Record where
  factId := factId
  statement := statementOf raw
  predecessors := (parseFrontmatter raw).predecessors
  glossaryIntroduces := (parseFrontmatter raw).glossaryIntroduces
  proof := if call.showsProof factId then some (proofOf raw) else none

/-- The search of `_context_unlocked`; the number bounds the nodes still to visit. -/
def search (g : Graph) : Nat → List (PyStr × Nat) → List PyStr → Found → Except GraphError Found
  | 0, _, _, found => .ok found
  | _ + 1, [], _, found => .ok found
  | fuel + 1, (factId, depth) :: queue, discovered, found => do
    match ← g.getRaw factId with
    | none =>
      if g.revoked.has factId then
        search g fuel queue discovered { found with revoked := found.revoked ++ [factId] }
      else search g fuel queue discovered { found with missing := found.missing ++ [factId] }
    | some raw =>
      validateFactIntegrity (g.revoked.has factId) factId raw (parseFrontmatter raw)
      let added := if below call.predecessorDepth depth then fresh discovered (parseFrontmatter raw).predecessors
        else []
      search g fuel (queue ++ added.map (·, depth + 1)) (discovered ++ added)
        { found with records := found.records ++ [call.record factId raw] }

end ContextCall

/-- Takes items while they fit: those taken, the others, and what is used then. -/
def fill {α : Type} (chars : α → Nat) (budget : Option Nat) (used : Nat) : List α → List α × List α × Nat
  | [] => ([], [], used)
  | item :: items =>
    if budget.any (· < used + chars item) then ([], item :: items, used)
    else
      let rest := fill chars budget (used + chars item) items
      (item :: rest.1, rest.2)

/-- What `_context_unlocked` returns, its scope and its digest apart. -/
structure Context where
  facts : List Record
  glossary : List (PyStr × PyStr)
  missingFactIds : List PyStr
  revokedFactIds : List PyStr
  omittedFactIds : List PyStr
  omittedGlossaryTerms : List PyStr
  charactersUsed : Nat

def Context.truncated (c : Context) : Bool := c.omittedFactIds != [] || c.omittedGlossaryTerms != []

def Context.complete (c : Context) : Bool :=
  !(c.missingFactIds != [] || c.revokedFactIds != [] || c.omittedFactIds != [] || c.omittedGlossaryTerms != [])

/-- The predecessors that an active fact names. -/
def predecessorsOf [Runtime] (g : Graph) (factId : PyStr) : List PyStr :=
  ((g.getRaw factId).toOption.join.map fun raw => (parseFrontmatter raw).predecessors).getD []

/-- `_context_unlocked` past the checks of its arguments -/
def contextUnlocked [Runtime] (g : Graph) (call : ContextCall) : Except GraphError Context := do
  let fuel := call.roots.length + (g.list.flatMap (predecessorsOf g)).length + 1
  let found ← call.search g fuel (call.roots.map (·, 0)) call.roots ⟨[], [], []⟩
  let resolved ← resolvedGlossaryForTexts g (call.glossaryTexts ++ found.records.flatMap Record.texts)
    (call.glossaryExcludeTerms ++ found.records.flatMap fun r => r.glossaryIntroduces.map Prod.fst)
    call.includeProjectGlossary
  let facts := fill Record.chars call.maxChars 0 found.records
  let terms := if facts.2.1 ≠ [] then ([], resolved, facts.2.2) else fill termChars call.maxChars facts.2.2 resolved
  return {
    facts := facts.1
    glossary := terms.1
    missingFactIds := found.missing
    revokedFactIds := found.revoked
    omittedFactIds := facts.2.1.map Record.factId
    omittedGlossaryTerms := terms.2.1.map Prod.fst
    charactersUsed := terms.2.2 }

end Source

section Budget
variable {α : Type} {budget : Option Nat} {used : Nat}

/-- What is taken fits, and the first of the others does not. -/
theorem fill_spec (chars : α → Nat) (items : List α) (hused : ∀ b, budget = some b → used ≤ b) :
    (fill chars budget used items).1 ++ (fill chars budget used items).2.1 = items ∧
    (fill chars budget used items).2.2 = used + ((fill chars budget used items).1.map chars).sum ∧
    (∀ b, budget = some b → (fill chars budget used items).2.2 ≤ b) ∧
    ∀ item ∈ (fill chars budget used items).2.1.head?, ∃ b, budget = some b ∧
      b < (fill chars budget used items).2.2 + chars item := by
  induction items generalizing used with
  | nil => exact ⟨rfl, by simp [fill], hused, fun _ h => by cases h⟩
  | cons item items ih =>
    rw [fill]
    split
    · next hover =>
      refine ⟨rfl, by simp, hused, fun other ho => ?_⟩
      cases ho
      obtain ⟨b, hb, hlt⟩ := (Option.any_eq_true _ _).mp hover
      exact ⟨b, hb, by simpa using hlt⟩
    · next hfits =>
      have hnext : ∀ b, budget = some b → used + chars item ≤ b := by
        rintro b rfl
        simpa using hfits
      obtain ⟨hsplit, hsum, hle, hfirst⟩ := ih hnext
      refine ⟨congrArg (item :: ·) hsplit, ?_, hle, hfirst⟩
      rw [List.map_cons, List.sum_cons, hsum]
      exact Nat.add_assoc _ _ _

end Budget

section Search
variable [Runtime] {g : Graph} {call : ContextCall} {found found' : Found} {queue : List (PyStr × Nat)}
  {done : List (PyStr × Nat)}

/-- The record of an active fact. -/
def ContextCall.record? (call : ContextCall) (g : Graph) (factId : PyStr) : Option Record :=
  (g.getRaw factId).toOption.join.map (call.record factId)

/-- Not an active fact. -/
def absent (g : Graph) (factId : PyStr) : Bool := (g.getRaw factId).toOption.join.isNone

/-- What the search finds in these nodes. -/
def Found.add (found : Found) (call : ContextCall) (g : Graph) (factIds : List PyStr) : Found where
  records := found.records ++ factIds.filterMap (call.record? g)
  missing := found.missing ++ factIds.filter fun factId => absent g factId && !g.revoked.has factId
  revoked := found.revoked ++ factIds.filter fun factId => absent g factId && g.revoked.has factId

/-- A node that the search gets past: an active fact that passes its check, or a safe id without an active fact. -/
def Passes (g : Graph) (factId : PyStr) : Prop :=
  ∃ raw, g.getRaw factId = .ok raw ∧ ∀ text, raw = some text →
    validateFactIntegrity (g.revoked.has factId) factId text (parseFrontmatter text) = .ok ()

theorem Found.add_nil (found : Found) : found.add call g [] = found := by
  simp only [Found.add, List.filterMap_nil, List.filter_nil, List.append_nil]

theorem Found.add_append (found : Found) (ids ids' : List PyStr) :
    (found.add call g ids).add call g ids' = found.add call g (ids ++ ids') := by
  simp only [Found.add, List.filterMap_append, List.filter_append, List.append_assoc]

theorem predecessorsOf_eq {factId : PyStr} {raw : Option PyStr} (h : g.getRaw factId = .ok raw) :
    predecessorsOf g factId = (raw.map fun raw => (parseFrontmatter raw).predecessors).getD [] := by
  rw [predecessorsOf, h]
  rfl

/-- What one node adds to what was found. -/
theorem Found.add_missing {factId : PyStr} (found : Found) (h : g.getRaw factId = .ok none)
    (hr : g.revoked.has factId = false) :
    found.add call g [factId] = { found with missing := found.missing ++ [factId] } := by
  have habsent : absent g factId = true := by rw [absent, h]; rfl
  have hrecord : call.record? g factId = none := by rw [ContextCall.record?, h]; rfl
  simp [Found.add, habsent, hrecord, hr]

theorem Found.add_revoked {factId : PyStr} (found : Found) (h : g.getRaw factId = .ok none)
    (hr : g.revoked.has factId = true) :
    found.add call g [factId] = { found with revoked := found.revoked ++ [factId] } := by
  have habsent : absent g factId = true := by rw [absent, h]; rfl
  have hrecord : call.record? g factId = none := by rw [ContextCall.record?, h]; rfl
  simp [Found.add, habsent, hrecord, hr]

theorem Found.add_record {factId raw : PyStr} (found : Found) (h : g.getRaw factId = .ok (some raw)) :
    found.add call g [factId] = { found with records := found.records ++ [call.record factId raw] } := by
  have habsent : absent g factId = false := by rw [absent, h]; rfl
  have hrecord : call.record? g factId = some (call.record factId raw) := by rw [ContextCall.record?, h]; rfl
  simp [Found.add, habsent, hrecord]

/-- The search visits the layers around its roots, and stops at the first node that does not pass. -/
theorem search_ok (fuel : Nat)
    (h : call.search g fuel queue ((done ++ queue).map Prod.fst) found = .ok found') :
    ∃ more, layers (predecessorsOf g) call.predecessorDepth fuel done queue = done ++ more ∧
      found' = found.add call g (more.map Prod.fst) ∧ ∀ e ∈ more, Passes g e.1 := by
  induction fuel generalizing queue done found with
  | zero =>
    cases h
    exact ⟨[], (List.append_nil _).symm, (Found.add_nil _).symm, by simp⟩
  | succ fuel ih =>
    cases queue with
    | nil =>
      cases h
      exact ⟨[], (List.append_nil _).symm, (Found.add_nil _).symm, by simp⟩
    | cons entry queue =>
      obtain ⟨factId, depth⟩ := entry
      rw [ContextCall.search] at h
      obtain ⟨raw, hraw, h⟩ := Checks.bind_ok.mp h
      -- the rest of the search, once this node is visited
      have hrest : Passes g factId →
          call.search g fuel (queue ++ expand (predecessorsOf g) call.predecessorDepth
            ((done ++ (factId, depth) :: queue).map Prod.fst) (factId, depth))
            ((done ++ [(factId, depth)] ++ (queue ++ expand (predecessorsOf g) call.predecessorDepth
              ((done ++ (factId, depth) :: queue).map Prod.fst) (factId, depth))).map Prod.fst)
            (found.add call g [factId]) = .ok found' →
          ∃ more, layers (predecessorsOf g) call.predecessorDepth (fuel + 1) done ((factId, depth) :: queue) =
            done ++ more ∧ found' = found.add call g (more.map Prod.fst) ∧ ∀ e ∈ more, Passes g e.1 := by
        intro hpasses hsearch
        obtain ⟨more, hlayers, hfound, hmore⟩ := ih hsearch
        refine ⟨(factId, depth) :: more, ?_, ?_, List.forall_mem_cons.mpr ⟨hpasses, hmore⟩⟩
        · rw [layers, hlayers, List.append_assoc, List.singleton_append]
        · rw [hfound, Found.add_append, List.map_cons, List.singleton_append]
      have hkeys : ((done ++ [(factId, depth)] ++ (queue ++ expand (predecessorsOf g) call.predecessorDepth
          ((done ++ (factId, depth) :: queue).map Prod.fst) (factId, depth))).map Prod.fst) =
          (done ++ (factId, depth) :: queue).map Prod.fst ++ (expand (predecessorsOf g) call.predecessorDepth
            ((done ++ (factId, depth) :: queue).map Prod.fst) (factId, depth)).map Prod.fst := by
        rw [← List.map_append]
        simp only [List.append_assoc, List.cons_append, List.nil_append]
      rw [hkeys] at hrest
      cases raw with
      | none =>
        have hpasses : Passes g factId := ⟨none, hraw, by simp⟩
        have hexpand : expand (predecessorsOf g) call.predecessorDepth
            ((done ++ (factId, depth) :: queue).map Prod.fst) (factId, depth) = [] := by
          rw [expand, predecessorsOf_eq hraw]
          split <;> rfl
        rw [hexpand, List.map_nil, List.append_nil, List.append_nil] at hrest
        refine hrest hpasses ?_
        cases hrevoked : g.revoked.has factId with
        | true =>
          simp only [hrevoked, if_true] at h
          rw [Found.add_revoked found hraw hrevoked]
          exact h
        | false =>
          simp only [hrevoked, Bool.false_eq_true, if_false] at h
          rw [Found.add_missing found hraw hrevoked]
          exact h
      | some raw =>
        obtain ⟨_, hvalid, h⟩ := Checks.bind_ok.mp h
        refine hrest ⟨some raw, hraw, fun text ht => by cases ht; exact hvalid⟩ ?_
        have hexpand : expand (predecessorsOf g) call.predecessorDepth
            ((done ++ (factId, depth) :: queue).map Prod.fst) (factId, depth) =
            (if below call.predecessorDepth depth then
              fresh ((done ++ (factId, depth) :: queue).map Prod.fst) (parseFrontmatter raw).predecessors
            else []).map (·, depth + 1) := by
          rw [expand, predecessorsOf_eq hraw]
          split <;> rfl
        have hfst : ∀ l : List PyStr, (l.map fun id => (id, depth + 1)).map Prod.fst = l := by
          intro l
          rw [List.map_map]
          exact List.map_id _
        rw [Found.add_record found hraw, hexpand, hfst]
        exact h

theorem search_from_roots {fuel : Nat}
    (h : call.search g fuel (call.roots.map (·, 0)) call.roots ⟨[], [], []⟩ = .ok found) :
    ∃ out, layers (predecessorsOf g) call.predecessorDepth fuel [] (call.roots.map (·, 0)) = out ∧
      found = Found.add ⟨[], [], []⟩ call g (out.map Prod.fst) ∧ ∀ e ∈ out, Passes g e.1 := by
  have hkeys : (([] ++ call.roots.map fun id => (id, 0)).map Prod.fst) = call.roots := by
    rw [List.nil_append, List.map_map]
    exact List.map_id _
  have hsearch : call.search g fuel (call.roots.map (·, 0))
      (([] ++ call.roots.map fun id => (id, 0)).map Prod.fst) ⟨[], [], []⟩ = .ok found := by
    rw [hkeys]
    exact h
  exact search_ok fuel hsearch

/-- A fact that names predecessors is active. -/
theorem mem_list_of_predecessors {factId p : PyStr} (hp : p ∈ predecessorsOf g factId) : factId ∈ g.list := by
  rw [predecessorsOf] at hp
  cases hraw : g.getRaw factId with
  | error e =>
    rw [hraw] at hp
    cases hp
  | ok raw =>
    cases raw with
    | none =>
      rw [hraw] at hp
      cases hp
    | some raw =>
      rw [Graph.getRaw] at hraw
      split at hraw
      · split at hraw
        · next text htext =>
          rw [mem_list, Directory.has, htext]
          rfl
        · cases hraw
      · cases hraw

/-- What the context says of the nodes around its roots: those that are active as records in this order, as far as
the budget goes, and the others by name. -/
structure Shows (g : Graph) (call : ContextCall) (c : Context) (out : List (PyStr × Nat)) (omitted : List Record) :
    Prop where
  visited : Visited (predecessorsOf g) call.predecessorDepth call.roots out
  intact : ∀ e ∈ out, Passes g e.1
  facts : c.facts ++ omitted = (out.map Prod.fst).filterMap (call.record? g)
  omittedFacts : c.omittedFactIds = omitted.map Record.factId
  missing : c.missingFactIds = (out.map Prod.fst).filter fun id => absent g id && !g.revoked.has id
  revoked : c.revokedFactIds = (out.map Prod.fst).filter fun id => absent g id && g.revoked.has id
  used : c.charactersUsed = (c.facts.map Record.chars).sum + (c.glossary.map termChars).sum
  fits : ∀ b, call.maxChars = some b → c.charactersUsed ≤ b
  greedy : ∀ r ∈ omitted.head?, ∃ b, call.maxChars = some b ∧ b < (c.facts.map Record.chars).sum + r.chars
  glossary : ∃ resolved rest, resolvedGlossaryForTexts g
      (call.glossaryTexts ++ (c.facts ++ omitted).flatMap Record.texts)
      (call.glossaryExcludeTerms ++ (c.facts ++ omitted).flatMap fun r => r.glossaryIntroduces.map Prod.fst)
      call.includeProjectGlossary = .ok resolved ∧
    c.glossary ++ rest = resolved ∧ c.omittedGlossaryTerms = rest.map Prod.fst ∧ (omitted ≠ [] → c.glossary = [])
  closed : call.predecessorDepth = none → c.complete = true →
    ∀ r ∈ c.facts, ∀ p ∈ r.predecessors, ∃ r' ∈ c.facts, r'.factId = p

/-- In a complete context without a depth limit, the predecessors of every record are records. -/
theorem closed_of_visited {out : List (PyStr × Nat)}
    (hvisited : Visited (predecessorsOf g) none call.roots out) (hintact : ∀ e ∈ out, Passes g e.1)
    (hmissing : (out.map Prod.fst).filter (fun id => absent g id && !g.revoked.has id) = [])
    (hrevoked : (out.map Prod.fst).filter (fun id => absent g id && g.revoked.has id) = []) :
    ∀ r ∈ (out.map Prod.fst).filterMap (call.record? g), ∀ p ∈ r.predecessors,
      ∃ r' ∈ (out.map Prod.fst).filterMap (call.record? g), r'.factId = p := by
  intro r hr p hp
  obtain ⟨factId, hid, hrecord⟩ := List.mem_filterMap.mp hr
  have hedge : p ∈ predecessorsOf g factId := by
    rw [ContextCall.record?, Option.map_eq_some_iff] at hrecord
    obtain ⟨raw, hraw, rfl⟩ := hrecord
    rw [predecessorsOf, hraw]
    exact hp
  obtain ⟨k, hk, _⟩ := (hvisited.exact factId).mp hid
  have hpin : p ∈ out.map Prod.fst := (hvisited.exact p).mpr ⟨k + 1, .step hk hedge, rfl⟩
  obtain ⟨e, he, rfl⟩ := List.mem_map.mp hpin
  obtain ⟨raw, hraw, _⟩ := hintact e he
  cases raw with
  | some raw =>
    have hsome : call.record? g e.1 = some (call.record e.1 raw) := by rw [ContextCall.record?, hraw]; rfl
    exact ⟨call.record e.1 raw, List.mem_filterMap.mpr ⟨e.1, hpin, hsome⟩, rfl⟩
  | none =>
    have habsent : absent g e.1 = true := by rw [absent, hraw]; rfl
    rw [List.filter_eq_nil_iff] at hmissing hrevoked
    have hno := hmissing e.1 hpin
    have hno' := hrevoked e.1 hpin
    rw [habsent] at hno hno'
    cases hr : g.revoked.has e.1 <;> simp [hr] at hno hno'

/-- A context has exactly the facts within its depth of the roots, each once and the nearer ones first, as far as its
budget goes; what it leaves out it names. -/
theorem context_exact (g : Graph) (call : ContextCall) (c : Context) (h : contextUnlocked g call = .ok c) :
    ∃ out omitted, Shows g call c out omitted := by
  rw [contextUnlocked] at h
  obtain ⟨found, hsearch, h⟩ := Checks.bind_ok.mp h
  obtain ⟨resolved, hresolved, h⟩ := Checks.bind_ok.mp h
  rw [Checks.pure_ok] at h
  obtain ⟨out, hlayers, hfound, hintact⟩ := search_from_roots hsearch
  have hvisited : Visited (predecessorsOf g) call.predecessorDepth call.roots out := by
    rw [← hlayers]
    refine layers_visited (fun a b hb => ?_) (fresh_nodup _ _) (Nat.lt_succ_self _)
    exact List.mem_flatMap.mpr ⟨a, mem_list_of_predecessors hb, hb⟩
  have hrecords : found.records = (out.map Prod.fst).filterMap (call.record? g) := by
    rw [hfound]
    exact List.nil_append _
  have hmissing : found.missing = (out.map Prod.fst).filter fun id => absent g id && !g.revoked.has id := by
    rw [hfound]
    exact List.nil_append _
  have hrevoked : found.revoked = (out.map Prod.fst).filter fun id => absent g id && g.revoked.has id := by
    rw [hfound]
    exact List.nil_append _
  have hzero : ∀ b, call.maxChars = some b → 0 ≤ b := fun b _ => Nat.zero_le b
  obtain ⟨hsplit, hsum, hfits, hgreedy⟩ := fill_spec Record.chars found.records hzero
  rcases htaken : fill Record.chars call.maxChars 0 found.records with ⟨facts, omitted, used⟩
  rw [htaken] at h hsplit hsum hfits hgreedy
  simp only [Nat.zero_add] at h hsplit hsum hfits hgreedy
  obtain ⟨hterms, htermsSum, htermsFit, -⟩ := fill_spec termChars resolved hfits
  rw [← hsplit] at hresolved
  have hclosed : omitted = [] → call.predecessorDepth = none → found.missing = [] → found.revoked = [] →
      ∀ r ∈ facts, ∀ p ∈ r.predecessors, ∃ r' ∈ facts, r'.factId = p := by
    intro hall hdepth hnone hnone'
    rw [hdepth] at hvisited
    have hfacts : facts = (out.map Prod.fst).filterMap (call.record? g) := by
      rw [← hrecords, ← hsplit, hall, List.append_nil]
    rw [hfacts]
    exact closed_of_visited hvisited hintact (hmissing ▸ hnone) (hrevoked ▸ hnone')
  refine ⟨out, omitted, ?_⟩
  have hgreedy' : ∀ r ∈ omitted.head?, ∃ b, call.maxChars = some b ∧ b < (facts.map Record.chars).sum + r.chars := by
    rw [← hsum]
    exact hgreedy
  cases omitted with
  | nil =>
    simp only [ne_eq, not_true_eq_false, if_false] at h
    subst h
    exact {
      visited := hvisited, intact := hintact, facts := hsplit.trans hrecords, omittedFacts := rfl
      missing := hmissing, revoked := hrevoked
      used := by rw [← hsum]; exact htermsSum
      fits := htermsFit, greedy := hgreedy'
      glossary := ⟨resolved, _, hresolved, hterms, rfl, fun h => absurd rfl h⟩
      closed := by
        intro hdepth hcomplete
        simp only [Context.complete, Bool.not_eq_true', Bool.or_eq_false_iff, bne_eq_false_iff_eq] at hcomplete
        exact hclosed rfl hdepth hcomplete.1.1.1 hcomplete.1.1.2 }
  | cons r omitted =>
    simp only [ne_eq, reduceCtorEq, not_false_eq_true, if_true] at h
    subst h
    exact {
      visited := hvisited, intact := hintact, facts := hsplit.trans hrecords, omittedFacts := rfl
      missing := hmissing, revoked := hrevoked
      used := by rw [hsum]; rfl
      fits := hfits, greedy := hgreedy'
      glossary := ⟨resolved, resolved, hresolved, rfl, rfl, fun _ => rfl⟩
      closed := by
        intro _ hcomplete
        simp [Context.complete] at hcomplete }

end Search

/-- A fact, and another one that builds on it and on one that is nowhere. -/
def chainGraph : Graph where
  facts := ⟨[("a".toList, .ok []), ("b".toList, .ok "---\npredecessors: [a, z]\n---".toList)], by decide⟩
  revoked := ⟨[], List.nodup_nil⟩
  glossary := none
  revocationLog := none
  pendingRevocation := none

def chainCall : ContextCall := ⟨["b".toList, "b".toList], none, .none, none, [], [], true⟩

theorem context_exact_chain :
    let _ : Runtime := asciiRuntime
    ∃ c, contextUnlocked chainGraph chainCall = .ok c ∧ c.facts.map Record.factId = ["b".toList, "a".toList] ∧
      c.missingFactIds = ["z".toList] ∧ ∃ out omitted, Shows chainGraph chainCall c out omitted := by
  let _ : Runtime := asciiRuntime
  have hrun : ((contextUnlocked chainGraph chainCall).toOption.map fun c =>
      (c.facts.map Record.factId, c.missingFactIds)) = some (["b".toList, "a".toList], ["z".toList]) := by
    decide +kernel
  cases hc : contextUnlocked chainGraph chainCall with
  | error e =>
    rw [hc] at hrun
    cases hrun
  | ok c =>
    rw [hc] at hrun
    obtain ⟨hfacts, hmissing⟩ := Prod.mk.inj (Option.some.inj hrun)
    exact ⟨c, hc, hfacts, hmissing, context_exact chainGraph chainCall c hc⟩

end Danus.FactGraph.Contexts
