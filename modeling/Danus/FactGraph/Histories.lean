import Danus.FactGraph.Additions
import Danus.Lib.Machine
import Mathlib.Algebra.Order.BigOperators.Group.List

/-! What holds of every graph that is only ever changed by adding facts, by editing their bibliographies and by
revoking them. -/
namespace Danus.FactGraph.Histories
open Python Revocation Contexts Additions Machines

section Source
variable [Runtime]

/-- A call that changes the graph. -/
inductive GraphCall where
  | add (call : AddCall)
  | setExternalRefs (factId : PyStr) (refs : List ExternalRef)
  | revoke (revocationId timestampUtc factId : PyStr) (reason : Reason)

/-- The graph after a call, returned or raised. -/
def perform (I : Identities) (g : Graph) : GraphCall → Graph
  | .add call => (add I g call).2
  | .setExternalRefs factId refs => (setRefs g factId refs).2
  | .revoke revocationId timestampUtc factId reason => (revoke g revocationId timestampUtc factId reason).2

def emptyGraph : Graph where
  facts := ⟨[], List.nodup_nil⟩
  revoked := ⟨[], List.nodup_nil⟩
  glossary := none
  revocationLog := none
  pendingRevocation := none

/-- The calls on a graph that was empty once. -/
def machine (I : Identities) : Machine Graph GraphCall where
  start g := g = emptyGraph
  step g call g' := g' = perform I g call

/-- No text that a call writes as JSON has a line break that JSON leaves as it is. -/
def GraphCall.OneLine : GraphCall → Prop
  | .add _ => True
  | .setExternalRefs _ refs => (refsJson refs).OneLine
  | .revoke revocationId timestampUtc _ (.text reason) =>
    ∀ s ∈ [revocationId, timestampUtc, reason], ∀ c ∈ s, isRawBreak c = false
  | .revoke .. => True

/-- What a maintainer may rely on: nothing is pending, no fact is active and revoked, every active fact passes its
check and builds on active facts alone, none on itself, and the glossary has what they define, each term once and none
against the packaged one. -/
structure Truthful (g : Graph) : Prop where
  idle : g.pendingRevocation = none
  disjoint : ∀ id ∈ g.list, g.revoked.has id = false
  intact : ∀ id ∈ g.list, g.getRaw id = .ok (some (g.textOf id)) ∧
    validateFactIntegrity (g.revoked.has id) id (g.textOf id) (g.frontmatter id) = .ok ()
  supported : ∀ id ∈ g.list, ∀ p ∈ (g.frontmatter id).predecessors, p ∈ g.list
  ranked : ∃ rank : PyStr → Nat, ∀ id ∈ g.list, ∀ p ∈ (g.frontmatter id).predecessors, rank p < rank id
  glossary : ∃ terms, readProjectGlossary g = .ok terms ∧ (terms.map Prod.fst).Nodup ∧
    (∀ kv, kv ∈ terms ↔ ∃ id ∈ g.list, kv ∈ g.terms id) ∧
    ∀ kv ∈ terms, ∀ d, Runtime.globalGlossary.lookup kv.1 = some d → d = kv.2

end Source

section Files
variable [Runtime] {fact : Fact} {calls : List (List ExternalRef)} {file : PyStr} {refs : List ExternalRef}

omit [Runtime] in
/-- References on one line each replace the line before them. -/
theorem refsLines_oneLine (fact : Fact) (h : ∀ refs ∈ calls, (refsJson refs).OneLine) :
    ∃ l, refsLines fact calls = [l] ∧ startsWith "external_refs:".toList l = true := by
  cases calls with
  | nil =>
    refine ⟨_, rfl, ?_⟩
    exact (refsName_head _).1
  | cons refs calls =>
    rw [List.forall_mem_cons] at h
    refine ⟨refsLine refs, ?_, startsWith_refsLine refs⟩
    rw [refsLines, linesOf_refsLine h.1, List.singleton_append]
    congr 1
    have hone : ∀ (more : List (List ExternalRef)), (∀ refs ∈ more, (refsJson refs).OneLine) →
        (refsLines fact more).drop 1 = [] := by
      intro more hmore
      induction more with
      | nil => rfl
      | cons refs more ih =>
        rw [List.forall_mem_cons] at hmore
        rw [refsLines, linesOf_refsLine hmore.1, ih hmore.2]
        rfl
    exact hone calls h.2

omit [Runtime] in
/-- The last line of the frontmatter is the one about the references, and none before it is a heading. -/
theorem written_frontmatter (hg : fact.Guarded) (h : Written fact calls file)
    (hone : ∀ refs ∈ calls, (refsJson refs).OneLine) :
    Unheaded (splitlines (universalNewlines file)) ∧ laterRefs (universalNewlines file) = none := by
  obtain ⟨l, hl, hname⟩ := refsLines_oneLine fact hone
  have hlines : splitlines (universalNewlines file) = "---".toList :: ((keyLinesBefore fact ++ [l]) ++
      "---".toList :: (bodyParts fact).flatMap linesOf) := by
    rw [splitlines_universalNewlines, splitlines_written hg h, fileLines, hl, List.append_assoc]
  have hmark : ∀ k ∈ keyLinesBefore fact ++ [l], strip k ≠ "---".toList := by
    intro k hk
    rcases List.mem_append.mp hk with hk | hk
    · exact strip_ne_mark (List.mem_of_mem_take hk)
    · rw [List.mem_singleton.mp hk]
      exact named_ne_mark hname
  have hclose : strip "---".toList = "---".toList := by decide
  obtain ⟨hfront, -⟩ := frontLines_cut "---".toList hmark rfl hclose
  have hsplit : splitRefs (keyLinesBefore fact ++ [l]) = (keyLinesBefore fact, []) := by
    have hgeneral : ∀ ls : List PyStr, (∀ k ∈ ls, startsWith "external_refs:".toList k = false) →
        splitRefs (ls ++ [l]) = (ls, []) := by
      intro ls hls
      induction ls with
      | nil => rw [List.nil_append, splitRefs, if_pos hname]
      | cons k ls ih =>
        rw [List.forall_mem_cons] at hls
        rw [List.cons_append, splitRefs, if_neg (by rw [hls.1]; decide), ih hls.2]
    exact hgeneral _ keyLinesBefore_names
  rw [laterRefs, hlines, Unheaded, hfront, hsplit]
  refine ⟨fun k hk => ?_, rfl⟩
  rw [List.take_succ_cons, List.take_zero, List.singleton_append, List.mem_cons] at hk
  rcases hk with rfl | hk
  · decide
  · have hkey := List.mem_of_mem_take hk
    exact ⟨keyLines_heading rfl k hkey, keyLines_heading rfl k hkey⟩

/-- A fact's file is read back whatever was done to its references. -/
theorem written_reads (hg : fact.Guarded) (h : Written fact calls file)
    (hone : ∀ refs ∈ calls, (refsJson refs).OneLine) :
    (parseFrontmatter (universalNewlines file)).glossaryEncodes = true ∧
    (parseFrontmatter (universalNewlines file)).predecessors = fact.predecessors ∧
    (parseFrontmatter (universalNewlines file)).glossaryIntroduces = Json.sortByKey fact.glossaryIntroduces ∧
    validateFactIntegrity false fact.factId (universalNewlines file) (parseFrontmatter (universalNewlines file)) =
      .ok () := by
  induction h with
  | add =>
    have hvalid := validateFactIntegrity_serializeFact hg
    rw [parseFrontmatter_readText]
    unfold validateFactIntegrity at hvalid ⊢
    rw [statementOf_readText, proofOf_readText]
    exact ⟨by rw [parseFrontmatter_serializeFact hg], by rw [parseFrontmatter_serializeFact hg],
      by rw [parseFrontmatter_serializeFact hg], hvalid⟩
  | @set calls file file' h refs hset ih =>
    rw [List.forall_mem_cons] at hone
    obtain ⟨hencodes, hpreds, hterms, hvalid⟩ := ih hone.2
    obtain ⟨hhead, hlater⟩ := written_frontmatter hg h hone.2
    have honly := onlyBibliography_of hset hone.1 hhead (by rw [hlater]; rintro v ⟨⟩)
    have hfields := honly.fields
    refine ⟨?_, ?_, ?_, ?_⟩
    · have hsame := congrArg Frontmatter.glossaryEncodes hfields
      exact hsame.trans hencodes
    · have hsame := congrArg Frontmatter.predecessors hfields
      exact hsame.trans hpreds
    · have hsame := congrArg Frontmatter.glossaryIntroduces hfields
      exact hsame.trans hterms
    · rw [honly.integrity]
      exact hvalid

/-- A file that `add` wrote, with what `set_external_refs` made of it. -/
def Stored (fact : Fact) (id : PyStr) (text : FileText) : Prop :=
  fact.Guarded ∧ fact.factId = id ∧ ∃ calls file, Written fact calls file ∧
    (∀ refs ∈ calls, (refsJson refs).OneLine) ∧ text = writtenText file

end Files

section Invariant
variable [Runtime] {g g' : Graph} {fact : Fact} {id factId revocationId timestampUtc : PyStr} {text : FileText}
  {terms : List (PyStr × PyStr)} {reason : Reason}

/-- The glossary has these terms, which are those of the active facts. -/
structure Glossed (g : Graph) (terms : List (PyStr × PyStr)) : Prop where
  file : g.glossary = none ∧ terms = [] ∨ g.glossary = some (.ok (glossaryFile terms))
  keys : (terms.map Prod.fst).Nodup
  exact : ∀ kv, kv ∈ terms ↔ ∃ id ∈ g.list, kv ∈ g.terms id
  packaged : ∀ kv ∈ terms, ∀ d, Runtime.globalGlossary.lookup kv.1 = some d → d = kv.2

/-- What every call keeps. -/
structure Sound (g : Graph) : Prop where
  idle : g.pendingRevocation = none
  stored : ∀ id text, g.facts.files.lookup id = some text → ∃ fact, Stored fact id text
  disjoint : ∀ id, g.facts.has id = true → g.revoked.has id = false
  supported : ∀ id ∈ g.list, ∀ p ∈ (g.frontmatter id).predecessors, p ∈ g.list
  ranked : ∃ rank : PyStr → Nat, ∀ id ∈ g.list, ∀ p ∈ (g.frontmatter id).predecessors, rank p < rank id
  glossary : ∃ terms, Glossed g terms
  log : ∃ entries, readRevocationLogStrict g.revocationLog = .ok entries ∧
    ∀ entry ∈ entries, (Json.obj entry).OneLine

theorem Stored.reads (h : Stored fact id text) (hlookup : g.facts.files.lookup id = some text) :
    g.getRaw id = .ok (some (g.textOf id)) ∧ (g.frontmatter id).predecessors = fact.predecessors ∧
    g.terms id = Json.sortByKey fact.glossaryIntroduces ∧
    validateFactIntegrity false id (g.textOf id) (g.frontmatter id) = .ok () ∧
    (g.frontmatter id).glossaryEncodes = true := by
  obtain ⟨hg, rfl, calls, file, hw, hone, rfl⟩ := h
  have hsafe : isSafeFactId fact.factId = true := by
    rw [hg.factId]
    exact isSafeFactId_of_isHexOf (factId_isHexOf _ _ _ _ _)
  have hraw : g.getRaw fact.factId = .ok (some (universalNewlines file)) := by
    rw [Graph.getRaw, if_pos hsafe, hlookup]
    rfl
  have htext : g.textOf fact.factId = universalNewlines file := by
    rw [Graph.textOf, hraw]
    rfl
  obtain ⟨hencodes, hpreds, hterms, hvalid⟩ := written_reads hg hw hone
  rw [Graph.terms, Graph.frontmatter, htext]
  exact ⟨hraw, hpreds, hterms, hvalid, hencodes⟩

theorem Sound.intact (h : Sound g) (hid : id ∈ g.list) : g.getRaw id = .ok (some (g.textOf id)) ∧
    validateFactIntegrity (g.revoked.has id) id (g.textOf id) (g.frontmatter id) = .ok () := by
  obtain ⟨text, hlookup⟩ := mem_list_lookup.mp hid
  obtain ⟨fact, hstored⟩ := h.stored id text hlookup
  obtain ⟨hraw, -, -, hvalid, -⟩ := hstored.reads hlookup
  rw [h.disjoint id (mem_list.mp hid)]
  exact ⟨hraw, hvalid⟩

theorem Sound.encodes (h : Sound g) (hid : id ∈ g.list) : (g.frontmatter id).glossaryEncodes = true := by
  obtain ⟨text, hlookup⟩ := mem_list_lookup.mp hid
  obtain ⟨fact, hstored⟩ := h.stored id text hlookup
  exact (hstored.reads hlookup).2.2.2.2

theorem Sound.readGlossary (h : Glossed g terms) : readProjectGlossary g = .ok (Json.sortByKey terms) := by
  rcases h.file with ⟨hnone, rfl⟩ | hfile
  · rw [readProjectGlossary, hnone]
    rfl
  · have hnoConflict : ((Json.sortByKey terms).filter fun kv =>
        (Runtime.globalGlossary.lookup kv.1).any (· != kv.2)) = [] := by
      rw [List.filter_eq_nil_iff]
      intro kv hkv
      cases hd : Runtime.globalGlossary.lookup kv.1 with
      | none => simp
      | some d => simp [h.packaged kv ((Json.sortByKey_perm _).mem_iff.mp hkv) d hd]
    rw [readProjectGlossary, hfile]
    refine Checks.bind_ok.mpr ⟨_, rfl, ?_⟩
    rw [parse_glossaryFile h.keys, Json.ofDict]
    simp only [stringItems_map, hnoConflict]
    rfl

theorem Sound.truthful (h : Sound g) : Truthful g := by
  obtain ⟨terms, hterms⟩ := h.glossary
  exact {
    idle := h.idle
    disjoint := fun id hid => h.disjoint id (mem_list.mp hid)
    intact := fun id hid => h.intact hid
    supported := h.supported
    ranked := h.ranked
    glossary := by
      refine ⟨Json.sortByKey terms, Sound.readGlossary hterms, ?_, fun kv => ?_, fun kv hkv => ?_⟩
      · exact ((Json.sortByKey_perm terms).map _).nodup_iff.mpr hterms.keys
      · rw [(Json.sortByKey_perm terms).mem_iff]
        exact hterms.exact kv
      · exact hterms.packaged kv ((Json.sortByKey_perm terms).mem_iff.mp hkv) }

/-- Nothing ever stands in the way of a cascade. -/
theorem Sound.revocable (h : Sound g) (hj : g.Journalled factId reason) : g.Revocable factId := by
  obtain ⟨terms, hterms⟩ := h.glossary
  obtain ⟨entries, hread, -⟩ := h.log
  refine ⟨fun id hid _ => (h.intact hid).2, ?_, fun id hid _ => h.encodes hid, ?_, (readLog_ok _).mp ⟨entries, hread⟩⟩
  · intro id hid _ id' hid' _ kv hkv kv' hkv' hkey
    have hmem := (hterms.exact kv).mpr ⟨id, hid, hkv⟩
    have hmem' := (hterms.exact kv').mpr ⟨id', hid', hkv'⟩
    rw [List.inj_on_of_nodup_map hterms.keys hmem hmem' hkey]
  · exact fun id hid => h.disjoint id (cascades_active hj.2.2 hj.2.1 hid).1

/-- A revocation does nothing, or all of its cascade. -/
theorem Sound.revoke_cases (h : Sound g) (revocationId timestampUtc factId : PyStr) (reason : Reason) :
    (revoke g revocationId timestampUtc factId reason).2 = g ∨
    ∃ text ids, reason = .text text ∧ g.has factId = true ∧
      Revoked g revocationId timestampUtc factId text ids (revoke g revocationId timestampUtc factId reason).2 := by
  by_cases hj : g.Journalled factId reason
  · rcases revokeUnlocked_journalled revocationId timestampUtc hj with ⟨-, ids, hok⟩ | ⟨hno, -⟩
    · have hrevoke : revoke g revocationId timestampUtc factId reason =
          (.ok ids, (revoke g revocationId timestampUtc factId reason).2) := by
        refine Prod.ext ?_ rfl
        rw [revoke, resumePending_idle h.idle]
        exact hok
      obtain ⟨text, hreason, -, hdone⟩ := revoke_done g h.idle hj.2.1 revocationId timestampUtc reason hrevoke
      exact .inr ⟨text, ids, hreason, hj.2.1, hdone⟩
    · exact absurd (h.revocable hj) hno
  · left
    rw [revoke, resumePending_idle h.idle]
    exact revokeUnlocked_early revocationId timestampUtc hj

/-- An active fact is always revoked when that is asked for. -/
theorem Sound.revokes (h : Sound g) (hhas : g.has factId = true) (revocationId timestampUtc text : PyStr) :
    ∃ ids, (revoke g revocationId timestampUtc factId (.text text)).1 = .ok ids := by
  have hj : g.Journalled factId (.text text) := ⟨⟨text, rfl⟩, hhas, fun id hid => (h.intact hid).1⟩
  rcases revokeUnlocked_journalled revocationId timestampUtc hj with ⟨-, ids, hok⟩ | ⟨hno, -⟩
  · refine ⟨ids, ?_⟩
    rw [revoke, resumePending_idle h.idle]
    exact hok
  · exact absurd (h.revocable hj) hno

/-- The cascade keeps what holds of the graph. -/
theorem Sound.revoked {ids : List PyStr} {text : PyStr} (h : Sound g) (hhas : g.has factId = true)
    (hone : ∀ s ∈ [revocationId, timestampUtc, text], ∀ c ∈ s, isRawBreak c = false)
    (hdone : Revoked g revocationId timestampUtc factId text ids g') : Sound g' := by
  have hlist : ∀ id, id ∈ g'.list ↔ id ∈ g.list ∧ id ∉ ids := by
    intro id
    rw [mem_list_lookup, mem_list_lookup, hdone.active]
    by_cases hid : id ∈ ids <;> simp [hid]
  have hstays : ∀ id ∉ ids, g'.facts.files.lookup id = g.facts.files.lookup id :=
    fun id hid => (hdone.active id).trans (if_neg hid)
  have hfront : ∀ id ∉ ids, g'.frontmatter id = g.frontmatter id := fun id hid => (stays (hstays id hid)).2.2
  obtain ⟨terms, hterms⟩ := h.glossary
  obtain ⟨rebuilt, hfile, hkeys, hexact⟩ := hdone.glossary
  obtain ⟨rank, hrank⟩ := h.ranked
  refine ⟨hdone.closed, ?_, ?_, ?_, ⟨rank, ?_⟩, ⟨rebuilt, .inr hfile, hkeys, hexact, ?_⟩, ?_⟩
  · intro id text hlookup
    rw [hdone.active] at hlookup
    split at hlookup
    · cases hlookup
    · exact h.stored id text hlookup
  · intro id hhas
    have hid := (hlist id).mp (mem_list.mpr hhas)
    rw [has_congr ((hdone.moved id).trans (if_neg hid.2))]
    exact h.disjoint id (mem_list.mp hid.1)
  · intro id hid p hp
    have hin := (hlist id).mp hid
    refine (hlist p).mpr ⟨h.supported id hin.1 p ?_, hdone.supported id hid p hp⟩
    rwa [← hfront id hin.2]
  · intro id hid p hp
    have hin := (hlist id).mp hid
    refine hrank id hin.1 p ?_
    rwa [← hfront id hin.2]
  · intro kv hkv
    obtain ⟨id, hid, hterm⟩ := (hexact kv).mp hkv
    have hin := (hlist id).mp hid
    rw [Graph.terms, hfront id hin.2] at hterm
    exact hterms.packaged kv ((hterms.exact kv).mpr ⟨id, hin.1, hterm⟩)
  · obtain ⟨entries, hread, hlog⟩ := hdone.log
    obtain ⟨entries', hread', hlines⟩ := h.log
    obtain rfl : entries = entries' := Except.ok.inj (hread.symm.trans hread')
    have hsafe : ∀ id ∈ ids, isSafeFactId id = true := by
      intro id hid
      have hlisted : g.Listed := fun id hid => (h.intact hid).1
      exact (cascades_active hlisted hhas ((hdone.cascade id).mp hid)).2
    rw [Graph.has, Bool.and_eq_true] at hhas
    have hall : ∀ entry ∈ entries ++ (Searches.fresh (entries.filterMap entryId) ids).map
        (logEntry ⟨revocationId, timestampUtc, factId, text, ids⟩),
        (Json.obj entry).distinctKeys = true ∧ (Json.obj entry).OneLine := by
      intro entry he
      rcases List.mem_append.mp he with he | he
      · exact ⟨readLog_distinct hread entry he, hlines entry he⟩
      · obtain ⟨id, hid, rfl⟩ := List.mem_map.mp he
        exact ⟨logEntry_distinct _ id, logEntry_oneLine hhas.1 (hsafe id (Searches.mem_fresh.mp hid).1) hone⟩
    refine ⟨_, ?_, fun entry he => (hall entry he).2⟩
    rw [hlog]
    exact readLog_written (fun entry he => (hall entry he).1) fun entry he => (hall entry he).2

end Invariant

section Additions
variable [Runtime] {I : Identities} {g : Graph} {call : AddCall} {fact : Fact}
  {merged terms new : List (PyStr × PyStr)}

theorem checkPredecessors_ok {pids : List PyStr} (h : checkPredecessors g pids = .ok ()) :
    ∀ p ∈ pids, isSafeFactId p = true ∧ g.facts.has p = true := by
  induction pids with
  | nil => simp
  | cons pid pids ih =>
    rw [checkPredecessors] at h
    obtain ⟨hsafe, h⟩ := Checks.unless_error_ok.mp h
    obtain ⟨-, h⟩ := Checks.unless_error_ok.mp h
    obtain ⟨hhas, h⟩ := Checks.unless_error_ok.mp h
    exact List.forall_mem_cons.mpr ⟨⟨by simpa using hsafe, by simpa using hhas⟩, ih h⟩

theorem lookupActiveExact_none {c : Content} (h : lookupActiveExact I g c = .ok none) :
    g.facts.files.lookup c.factId = none := by
  rw [lookupActiveExact] at h
  obtain ⟨raw, hraw, h⟩ := Checks.bind_ok.mp h
  cases raw with
  | none =>
    rw [Graph.getRaw] at hraw
    split at hraw
    · split at hraw
      · obtain ⟨_, _, hnone⟩ := Checks.map_ok.mp hraw
        cases hnone
      · assumption
    · cases hraw
  | some raw =>
    obtain ⟨_, -, h⟩ := Checks.bind_ok.mp h
    obtain ⟨_, -, h⟩ := Checks.bind_ok.mp h
    obtain ⟨_, -, h⟩ := Checks.bind_ok.mp h
    obtain ⟨-, h⟩ := Checks.unless_ok.mp h
    obtain ⟨-, h⟩ := Checks.unless_ok.mp h
    cases h

/-- What a new fact is like. -/
theorem prepareAdd_new (h : prepareAdd I g call = .ok (.new fact merged)) :
    fact.Guarded ∧ g.facts.files.lookup fact.factId = none ∧ g.revoked.has fact.factId = false ∧
    (∀ p ∈ fact.predecessors, g.facts.has p = true) ∧
    prepareGlossaryMerge g fact.glossaryIntroduces = .ok merged := by
  rw [prepareAdd] at h
  obtain ⟨_, hfields, h⟩ := Checks.bind_ok.mp h
  obtain ⟨_, hpreds, h⟩ := Checks.bind_ok.mp h
  obtain ⟨hrevoked, h⟩ := Checks.unless_ok.mp h
  obtain ⟨existing, hlookup, h⟩ := Checks.bind_ok.mp h
  cases existing with
  | some factId => cases h
  | none =>
    obtain ⟨identity, hidentity, h⟩ := Checks.bind_ok.mp h
    obtain ⟨merged', hmerge, h⟩ := Checks.bind_ok.mp h
    cases h
    have hall := checkPredecessors_ok hpreds
    exact ⟨⟨hfields, fun p hp => (hall p hp).1, rfl, I.isHex hidentity⟩, lookupActiveExact_none hlookup,
      by simpa using hrevoked, fun p hp => (hall p hp).2, hmerge⟩

omit [Runtime] in
/-- Terms that nothing says otherwise of are added to the others. -/
theorem setTerms_mem (hkeys : (terms.map Prod.fst).Nodup)
    (hagree : ∀ kv ∈ new, ∀ d, (kv.1, d) ∈ terms → d = kv.2) (hnew : (new.map Prod.fst).Nodup) :
    ((new.foldl Contexts.setTerm terms).map Prod.fst).Nodup ∧
    ∀ kv, kv ∈ new.foldl Contexts.setTerm terms ↔ kv ∈ terms ∨ kv ∈ new := by
  induction new generalizing terms with
  | nil => exact ⟨hkeys, by simp⟩
  | cons kv new ih =>
    rw [List.map_cons, List.nodup_cons] at hnew
    rw [List.forall_mem_cons] at hagree
    have hterm : ((Contexts.setTerm terms kv).map Prod.fst).Nodup ∧
        ∀ p, p ∈ Contexts.setTerm terms kv ↔ p ∈ terms ∨ p = kv := by
      rw [Contexts.setTerm]
      split
      · next hany =>
        obtain ⟨p, hp, hkey⟩ := List.any_eq_true.mp hany
        rw [beq_iff_eq] at hkey
        have hsame : ∀ q ∈ terms, (if q.1 == kv.1 then kv else q) = q := by
          intro q hq
          split
          · next he =>
            rw [beq_iff_eq] at he
            exact Prod.ext he.symm (hagree.1 q.2 (by rw [← he]; exact hq)).symm
          · rfl
        have hin : kv ∈ terms := by
          have hvalue := hagree.1 p.2 (by rw [← hkey]; exact hp)
          rwa [← Prod.ext hkey hvalue]
        rw [List.map_congr_left hsame, List.map_id']
        refine ⟨hkeys, fun p => ⟨.inl, ?_⟩⟩
        rintro (hp | rfl)
        · exact hp
        · exact hin
      · next hany =>
        rw [Bool.not_eq_true, List.any_eq_false] at hany
        refine ⟨?_, fun p => by rw [List.mem_append, List.mem_singleton]⟩
        rw [List.map_append, List.map_singleton, List.nodup_append]
        refine ⟨hkeys, List.nodup_singleton _, fun a ha b hb he => ?_⟩
        obtain ⟨p, hp, rfl⟩ := List.mem_map.mp ha
        rw [List.mem_singleton.mp hb] at he
        exact hany p hp (beq_iff_eq.mpr he)
    obtain ⟨hkeys', hmem'⟩ := hterm
    have hagree' : ∀ kv' ∈ new, ∀ d, (kv'.1, d) ∈ Contexts.setTerm terms kv → d = kv'.2 := by
      intro kv' hkv' d hd
      rcases (hmem' _).mp hd with hd | rfl
      · exact hagree.2 kv' hkv' d hd
      · exact absurd (List.mem_map_of_mem hkv') hnew.1
    obtain ⟨hkeys'', hmem''⟩ := ih hkeys' hagree' hnew.2
    refine ⟨hkeys'', fun p => ?_⟩
    rw [List.foldl_cons, hmem'', hmem', List.mem_cons, or_assoc]

theorem prepareGlossaryMerge_ok (hg : Glossed g terms) (hnew : (new.map Prod.fst).Nodup)
    (h : prepareGlossaryMerge g new = .ok merged) : (merged.map Prod.fst).Nodup ∧
    (∀ kv, kv ∈ merged ↔ kv ∈ terms ∨ kv ∈ new) ∧
    ∀ kv ∈ new, ∀ d, Runtime.globalGlossary.lookup kv.1 = some d → d = kv.2 := by
  rw [prepareGlossaryMerge] at h
  obtain ⟨current, hcurrent, h⟩ := Checks.bind_ok.mp h
  rw [Sound.readGlossary hg] at hcurrent
  cases hcurrent
  obtain ⟨hnone, h⟩ := Checks.unless_ok.mp h
  rw [Checks.pure_ok] at h
  subst h
  have hsorted : ((Json.sortByKey terms).map Prod.fst).Nodup :=
    ((Json.sortByKey_perm terms).map _).nodup_iff.mpr hg.keys
  have hfilter : ∀ kv ∈ new, ((Json.sortByKey terms).lookup kv.1).any (· != kv.2) = false ∧
      (Runtime.globalGlossary.lookup kv.1).any (· != kv.2) = false := by
    rw [not_not, glossaryConflictsAgainst] at hnone
    have hnil := List.map_eq_nil_iff.mp (List.Perm.eq_nil (hnone ▸ (sortStr_perm _).symm))
    rw [List.filter_eq_nil_iff] at hnil
    intro kv hkv
    have hno := hnil kv hkv
    rwa [Bool.not_eq_true, Bool.or_eq_false_iff] at hno
  have hagree : ∀ kv ∈ new, ∀ d, (kv.1, d) ∈ Json.sortByKey terms → d = kv.2 := by
    intro kv hkv d hd
    have hno := (hfilter kv hkv).1
    rw [lookup_eq_some_of_nodup hsorted hd] at hno
    simpa using hno
  obtain ⟨hkeys, hmem⟩ := setTerms_mem hsorted hagree hnew
  refine ⟨hkeys, fun kv => ?_, fun kv hkv d hd => ?_⟩
  · rw [hmem, (Json.sortByKey_perm terms).mem_iff]
  · have hno := (hfilter kv hkv).2
    rw [hd] at hno
    simpa using hno

omit [Runtime] in
theorem lookup_replaceFile {d : Directory} {id other : PyStr} {text : FileText} :
    (replaceFile d id text).files.lookup other = if other = id then some text else d.files.lookup other := by
  rw [replaceFile, lookup_add, lookup_remove]
  split <;> rfl

/-- A new fact keeps what holds of the graph. -/
theorem Sound.withFact (h : Sound g) (hnew : prepareAdd I g call = .ok (.new fact merged)) :
    Sound (withFact g fact merged) := by
  obtain ⟨hg, hlookup, hrevoked, hpreds, hmerge⟩ := prepareAdd_new hnew
  obtain ⟨terms, hterms⟩ := h.glossary
  obtain ⟨rank, hrank⟩ := h.ranked
  obtain ⟨hkeys, hmem, hpackaged⟩ := prepareGlossaryMerge_ok hterms fact.glossary_keys hmerge
  have hfile : ∀ id, (Additions.withFact g fact merged).facts.files.lookup id =
      if id = fact.factId then some (writtenText (serializeFact fact)) else g.facts.files.lookup id :=
    fun id => lookup_replaceFile
  have hstored : Stored fact fact.factId (writtenText (serializeFact fact)) :=
    ⟨hg, rfl, [], _, .add, by simp, rfl⟩
  obtain ⟨-, hfactPreds, hfactTerms, -⟩ := hstored.reads ((hfile _).trans (if_pos rfl))
  have hold : ∀ id ∈ g.list, id ≠ fact.factId := by
    rintro id hid rfl
    obtain ⟨text, htext⟩ := mem_list_lookup.mp hid
    cases hlookup.symm.trans htext
  have hlist : ∀ id, id ∈ (Additions.withFact g fact merged).list ↔ id = fact.factId ∨ id ∈ g.list := by
    intro id
    rw [mem_list_lookup, mem_list_lookup, hfile]
    by_cases hid : id = fact.factId <;> simp [hid]
  have hfront : ∀ id ∈ g.list, (Additions.withFact g fact merged).frontmatter id = g.frontmatter id :=
    fun id hid => (stays ((hfile id).trans (if_neg (hold id hid)))).2.2
  have hactive : ∀ p ∈ fact.predecessors, p ∈ g.list := fun p hp => mem_list.mpr (hpreds p hp)
  have hexact : ∀ kv, (kv ∈ terms ∨ kv ∈ fact.glossaryIntroduces) ↔
      ∃ id ∈ (Additions.withFact g fact merged).list, kv ∈ (Additions.withFact g fact merged).terms id := by
    intro kv
    simp only [hlist, exists_eq_or_imp, hfactTerms, (Json.sortByKey_perm fact.glossaryIntroduces).mem_iff,
      hterms.exact]
    rw [or_comm]
    refine or_congr_right (exists_congr fun id => and_congr_right fun hid => ?_)
    rw [Graph.terms, Graph.terms, hfront id hid]
  refine ⟨h.idle, ?_, ?_, ?_,
    ⟨fun id => if id = fact.factId then (fact.predecessors.map rank).sum + 1 else rank id, ?_⟩, ?_, h.log⟩
  · intro id text htext
    rw [hfile] at htext
    split at htext
    · next he =>
      cases htext
      exact ⟨fact, he ▸ hstored⟩
    · exact h.stored id text htext
  · intro id hid
    rcases (hlist id).mp (mem_list.mpr hid) with rfl | hid
    · exact hrevoked
    · exact h.disjoint id (mem_list.mp hid)
  · intro id hid p hp
    rcases (hlist id).mp hid with rfl | hid
    · rw [hfactPreds] at hp
      exact (hlist p).mpr (.inr (hactive p hp))
    · rw [hfront id hid] at hp
      exact (hlist p).mpr (.inr (h.supported id hid p hp))
  · intro id hid p hp
    dsimp only
    rcases (hlist id).mp hid with rfl | hid
    · rw [hfactPreds] at hp
      rw [if_pos rfl, if_neg (hold p (hactive p hp))]
      exact Nat.lt_succ_of_le (List.le_sum_of_mem (List.mem_map_of_mem hp))
    · rw [hfront id hid] at hp
      rw [if_neg (hold id hid), if_neg (hold p (h.supported id hid p hp))]
      exact hrank id hid p hp
  · by_cases hnone : fact.glossaryIntroduces = []
    · refine ⟨terms, ?_, hterms.keys, fun kv => ?_, hterms.packaged⟩
      · rw [Additions.withFact]
        simp only [hnone, if_true]
        exact hterms.file
      · rw [← hexact kv, hnone]
        simp
    · refine ⟨merged, .inr ?_, hkeys, fun kv => (hmem kv).trans (hexact kv), fun kv hkv => ?_⟩
      · rw [Additions.withFact]
        simp only [hnone, if_false]
      · rcases (hmem kv).mp hkv with hkv | hkv
        · exact hterms.packaged kv hkv
        · exact hpackaged kv hkv

theorem Sound.add (h : Sound g) (call : AddCall) : Sound (add I g call).2 := by
  rw [Additions.add, resumePending_idle h.idle]
  dsimp only
  cases hadd : prepareAdd I g call with
  | error e => exact h
  | ok addition =>
    cases addition with
    | existing factId => exact h
    | new fact merged => exact h.withFact hadd

/-- So does the same fact in another file. -/
theorem Sound.rewritten {text text' : FileText} (h : Sound g) (hstored : Stored fact fact.factId text)
    (hstored' : Stored fact fact.factId text') (hlookup : g.facts.files.lookup fact.factId = some text) :
    Sound { g with facts := replaceFile g.facts fact.factId text' } := by
  set g' : Graph := { g with facts := replaceFile g.facts fact.factId text' }
  have hfile : ∀ id, g'.facts.files.lookup id = if id = fact.factId then some text' else g.facts.files.lookup id :=
    fun id => lookup_replaceFile
  have hlist : ∀ id, id ∈ g'.list ↔ id ∈ g.list := by
    intro id
    rw [mem_list_lookup, mem_list_lookup, hfile]
    by_cases hid : id = fact.factId <;> simp [hid, hlookup]
  have hsame : ∀ id, (g'.frontmatter id).predecessors = (g.frontmatter id).predecessors ∧
      g'.terms id = g.terms id := by
    intro id
    by_cases hid : id = fact.factId
    · subst hid
      obtain ⟨-, hpreds, hterms, -⟩ := hstored.reads hlookup
      obtain ⟨-, hpreds', hterms', -⟩ := hstored'.reads ((hfile _).trans (if_pos rfl))
      exact ⟨hpreds'.trans hpreds.symm, hterms'.trans hterms.symm⟩
    · have hfront := (stays ((hfile id).trans (if_neg hid))).2.2
      exact ⟨congrArg Frontmatter.predecessors hfront, congrArg Frontmatter.glossaryIntroduces hfront⟩
  obtain ⟨terms, hterms⟩ := h.glossary
  obtain ⟨rank, hrank⟩ := h.ranked
  refine ⟨h.idle, ?_, ?_, ?_, ⟨rank, ?_⟩,
    ⟨terms, hterms.file, hterms.keys, fun kv => ?_, hterms.packaged⟩, h.log⟩
  · intro id text htext
    rw [hfile] at htext
    split at htext
    · next he =>
      cases htext
      exact ⟨fact, he ▸ hstored'⟩
    · exact h.stored id text htext
  · intro id hid
    exact h.disjoint id (mem_list.mp ((hlist id).mp (mem_list.mpr hid)))
  · intro id hid p hp
    rw [(hsame id).1] at hp
    exact (hlist p).mpr (h.supported id ((hlist id).mp hid) p hp)
  · intro id hid p hp
    rw [(hsame id).1] at hp
    exact hrank id ((hlist id).mp hid) p hp
  · rw [hterms.exact]
    simp only [hlist, (hsame _).2]

/-- An edit of the references keeps what holds of the graph. -/
theorem Sound.setRefs {factId : PyStr} {refs : List ExternalRef} (h : Sound g) (hone : (refsJson refs).OneLine) :
    Sound (setRefs g factId refs).2 := by
  rw [Additions.setRefs, resumePending_idle h.idle]
  dsimp only
  cases hraw : g.getRaw factId with
  | error e => exact h
  | ok raw =>
    cases raw with
    | none => exact h
    | some raw =>
      dsimp only
      cases hset : setExternalRefs factId refs raw with
      | error e => exact h
      | ok file =>
        have htext : g.facts.files.lookup factId = some (.ok raw) := by
          rw [Graph.getRaw] at hraw
          split at hraw
          · split at hraw
            · next text hlookup =>
              obtain ⟨_, hread, hsome⟩ := Checks.map_ok.mp hraw
              cases text with
              | error message => cases hread
              | ok raw' =>
                cases hread
                rw [hlookup, Option.some.inj hsome]
            · cases hraw
          · cases hraw
        obtain ⟨fact, hg, rfl, calls, file', hw, hcalls, hfile'⟩ := h.stored factId _ htext
        obtain rfl : raw = universalNewlines file' := Except.ok.inj hfile'
        rw [setExternalRefs, splitlines_universalNewlines, ← setExternalRefs] at hset
        have hstored : Stored fact fact.factId (writtenText file) :=
          ⟨hg, rfl, refs :: calls, file, hw.set refs hset, List.forall_mem_cons.mpr ⟨hone, hcalls⟩, rfl⟩
        exact h.rewritten ⟨hg, rfl, calls, file', hw, hcalls, rfl⟩ hstored htext

end Additions

section Runs
variable [Runtime] {I : Identities} {g : Graph}

theorem sound_empty : Sound emptyGraph where
  idle := rfl
  stored := by rintro id text ⟨⟩
  disjoint := by rintro id ⟨⟩
  supported := by rintro id ⟨⟩
  ranked := ⟨fun _ => 0, by rintro id ⟨⟩⟩
  glossary := by
    refine ⟨[], .inl ⟨rfl, rfl⟩, List.nodup_nil, fun kv => ⟨by rintro ⟨⟩, ?_⟩, by rintro kv ⟨⟩⟩
    rintro ⟨id, ⟨⟩, -⟩
  log := ⟨[], rfl, by rintro entry ⟨⟩⟩

/-- A call keeps what holds of the graph, and every revoked fact. -/
theorem perform_sound (h : Sound g) {call : GraphCall} (hone : call.OneLine) :
    Sound (perform I g call) ∧ ∀ id, g.revoked.has id = true → (perform I g call).revoked.has id = true := by
  cases call with
  | add call =>
    refine ⟨h.add call, fun id hid => ?_⟩
    rw [perform, Additions.add, resumePending_idle h.idle]
    dsimp only
    cases prepareAdd I g call with
    | error e => exact hid
    | ok addition => cases addition <;> exact hid
  | setExternalRefs factId refs =>
    refine ⟨h.setRefs hone, fun id hid => ?_⟩
    rw [perform, Additions.setRefs, resumePending_idle h.idle]
    dsimp only
    split
    · exact hid
    · exact hid
    · split <;> exact hid
  | revoke revocationId timestampUtc factId reason =>
    rw [perform]
    rcases h.revoke_cases revocationId timestampUtc factId reason with hsame | ⟨text, ids, rfl, hhas, hdone⟩
    · rw [hsame]
      exact ⟨h, fun id hid => hid⟩
    · refine ⟨h.revoked hhas hone hdone, fun id hid => ?_⟩
      rw [Directory.has, hdone.moved]
      split
      · next hgone =>
        have hlisted : g.Listed := fun id hid => (h.intact hid).1
        exact (cascades_active hlisted hhas ((hdone.cascade id).mp hgone)).1
      · exact hid

/-- Whatever is added, edited and revoked, and whatever of it is refused, the graph is in order, a fact that was once
revoked is never active again, and an active one can be revoked. -/
theorem graph_stays_truthful {past : List Graph} (h : (machine I).History (fun _ call => call.OneLine) (g :: past)) :
    Truthful g ∧ (∀ d ∈ past, ∀ id, d.revoked.has id = true → g.revoked.has id = true ∧ id ∉ g.list) ∧
    ∀ factId revocationId timestampUtc text, g.has factId = true →
      ∃ ids, (revoke g revocationId timestampUtc factId (.text text)).1 = .ok ids := by
  have hall : ∀ l, (machine I).History (fun _ call => call.OneLine) l → ∀ g' ∈ l.head?, Sound g' ∧
      ∀ d ∈ l, ∀ id, d.revoked.has id = true → g'.revoked.has id = true := by
    intro l hl
    refine hl.invariant (I := fun l => ∀ g' ∈ l.head?, Sound g' ∧
      ∀ d ∈ l, ∀ id, d.revoked.has id = true → g'.revoked.has id = true) ?_ ?_
    · rintro s rfl g' ⟨⟩
      refine ⟨sound_empty, fun d hd id hid => ?_⟩
      rwa [List.mem_singleton.mp hd] at hid
    · rintro s past call t hp ih hone rfl g' ⟨⟩
      obtain ⟨hsound, hkept⟩ := ih s rfl
      obtain ⟨hnext, hmore⟩ := perform_sound hsound hone
      refine ⟨hnext, fun d hd id hid => ?_⟩
      rcases List.mem_cons.mp hd with rfl | hd
      · exact hid
      · exact hmore id (hkept d hd id hid)
  obtain ⟨hsound, hkept⟩ := hall _ h g rfl
  refine ⟨hsound.truthful, fun d hd id hid => ?_, fun factId revocationId timestampUtc text hhas =>
    hsound.revokes hhas revocationId timestampUtc text⟩
  have hrevoked := hkept d (List.mem_cons_of_mem _ hd) id hid
  refine ⟨hrevoked, fun hin => ?_⟩
  rw [hsound.disjoint id (mem_list.mp hin)] at hrevoked
  cases hrevoked

end Runs

/-- What the full identity of a fact is computed from, where it has no predecessors and uses no other terms. -/
def soleBody (c : Content) : Json :=
  .obj [("schema".toList, .str "danus.fact-identity.v1".toList),
    ("problem_id".toList, .str c.problemId),
    ("predecessors".toList, .arr []),
    ("definitions".toList, Json.ofDict (c.glossaryIntroduces.map fun kv => (kv.1, normalize kv.2))),
    ("statement".toList, .str (normalize c.statement)),
    ("proof".toList, .str (normalize c.proof)),
    ("context_bindings".toList, .obj [("schema_version".toList, .int 3),
      ("projection".toList, .str "full-statement-closure-adaptive-proofs-v1".toList),
      ("closure_fact_ids".toList, .arr []), ("facts".toList, .arr [])]),
    ("glossary_bindings".toList, .obj [])]

def soleIdentities : Identities where
  canonical _ c := .ok (Sha256.hexdigest (Json.preimage (Json.compact false true) (soleBody c)))
  isHex h := Except.ok.inj h ▸ Sha256.hexdigest_isHexOf _

/-- A fact that defines a term. -/
def soleCall : AddCall where
  problemId := "p".toList
  author := "w".toList
  statement := "s".toList
  proof := "q".toList
  predecessors := []
  glossaryIntroduces := [("k".toList, "r".toList)]
  intuition := []
  externalRefs := []
  glossary_keys := by decide

theorem graph_stays_truthful_added :
    let _ : Runtime := asciiRuntime
    let g := perform soleIdentities emptyGraph (.add soleCall)
    g.list.length = 1 ∧ Truthful g := by
  let _ : Runtime := asciiRuntime
  have hlength : (perform soleIdentities emptyGraph (.add soleCall)).list.length = 1 := by decide +kernel
  have hrun : (machine soleIdentities).History (fun _ call => call.OneLine)
      [perform soleIdentities emptyGraph (.add soleCall), emptyGraph] :=
    .step (.start rfl) (show GraphCall.OneLine (.add soleCall) from trivial) rfl
  exact ⟨hlength, (graph_stays_truthful hrun).1⟩

end Danus.FactGraph.Histories
