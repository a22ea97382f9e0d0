import Danus.Observability.Depths
import Danus.Observability.FactPages

/-! The graph that the dashboard shows, against the active facts. -/
namespace Danus.Observability
open Python FactGraph Chains

/-- The active facts of a graph, in the order they were added, and the ids that are revoked. `add` refuses
a revoked id and a predecessor that is not active; a revocation moves one file after another, so that any
of the files may be gone. -/
inductive Kept : List Fact → List PyStr → Prop
  | empty : Kept [] []
  | add {facts : List Fact} {revoked : List PyStr} {fact : Fact} (h : Kept facts revoked)
      (hguard : fact.Guarded) (hnew : fact.factId ∉ facts.map Fact.factId)
      (hactive : fact.factId ∉ revoked) (hpreds : ∀ p ∈ fact.predecessors, p ∈ facts.map Fact.factId) :
      Kept (facts ++ [fact]) revoked
  | revoke {facts : List Fact} {revoked : List PyStr} (h : Kept facts revoked) (gone : List PyStr) :
      Kept (facts.filter fun f => f.factId ∉ gone)
        (revoked ++ (facts.map Fact.factId).filter (· ∈ gone))

/-- What holds of every graph. -/
structure Ordered (facts : List Fact) (revoked : List PyStr) : Prop where
  guarded : ∀ f ∈ facts, f.Guarded
  ids : (facts.map Fact.factId).Nodup
  known : ∀ f ∈ facts, ∀ p ∈ f.predecessors, p ∈ facts.map Fact.factId ∨ p ∈ revoked
  active : ∀ id ∈ revoked, id ∉ facts.map Fact.factId
  earlier : facts.Pairwise fun f g => g.factId ∉ f.predecessors
  irreflexive : ∀ f ∈ facts, f.factId ∉ f.predecessors

section Kept
variable {facts : List Fact} {revoked : List PyStr} {fact f g : Fact}

theorem Ordered.add (h : Ordered facts revoked) (hguard : fact.Guarded)
    (hnew : fact.factId ∉ facts.map Fact.factId) (hactive : fact.factId ∉ revoked)
    (hpreds : ∀ p ∈ fact.predecessors, p ∈ facts.map Fact.factId) : Ordered (facts ++ [fact]) revoked := by
  have hmem : ∀ f, f ∈ facts ++ [fact] ↔ f ∈ facts ∨ f = fact := by simp
  have hids : ∀ p, p ∈ (facts ++ [fact]).map Fact.factId ↔ p ∈ facts.map Fact.factId ∨ p = fact.factId := by
    simp
  refine ⟨fun f hf => ?_, ?_, fun f hf p hp => ?_, fun id hid => ?_, ?_, fun f hf => ?_⟩
  · rcases (hmem f).mp hf with hf | rfl
    · exact h.guarded f hf
    · exact hguard
  · rw [List.map_append, List.map_singleton, List.nodup_append]
    refine ⟨h.ids, List.nodup_singleton _, fun a ha b hb he => ?_⟩
    rw [List.mem_singleton.mp hb] at he
    exact hnew (he ▸ ha)
  · rw [hids]
    rcases (hmem f).mp hf with hf | rfl
    · rcases h.known f hf p hp with hp | hp
      · exact .inl (.inl hp)
      · exact .inr hp
    · exact .inl (.inl (hpreds p hp))
  · rw [hids, not_or]
    refine ⟨h.active id hid, ?_⟩
    rintro rfl
    exact hactive hid
  · rw [List.pairwise_append]
    refine ⟨h.earlier, List.pairwise_singleton _ _, fun f hf g hg hp => ?_⟩
    rw [List.mem_singleton.mp hg] at hp
    rcases h.known f hf _ hp with hp | hp
    · exact hnew hp
    · exact hactive hp
  · rcases (hmem f).mp hf with hf | rfl
    · exact h.irreflexive f hf
    · exact fun hp => hnew (hpreds _ hp)

theorem Ordered.revoke (h : Ordered facts revoked) (gone : List PyStr) :
    Ordered (facts.filter fun f => f.factId ∉ gone)
      (revoked ++ (facts.map Fact.factId).filter (· ∈ gone)) := by
  have hsub : (facts.filter fun f => f.factId ∉ gone).Sublist facts := List.filter_sublist
  have hmem : ∀ {f}, f ∈ (facts.filter fun f => f.factId ∉ gone) → f ∈ facts := fun hf => hsub.subset hf
  refine ⟨fun f hf => h.guarded f (hmem hf), h.ids.sublist (hsub.map _), fun f hf p hp => ?_,
    fun id hid hm => ?_, h.earlier.sublist hsub, fun f hf => h.irreflexive f (hmem hf)⟩
  · rcases h.known f (hmem hf) p hp with hp | hp
    · by_cases hg : p ∈ gone
      · exact .inr (List.mem_append_right _ (List.mem_filter.mpr ⟨hp, by simpa using hg⟩))
      · obtain ⟨q, hq, rfl⟩ := List.mem_map.mp hp
        exact .inl (List.mem_map_of_mem (List.mem_filter.mpr ⟨hq, by simpa using hg⟩))
    · exact .inr (List.mem_append_left _ hp)
  · obtain ⟨q, hq, rfl⟩ := List.mem_map.mp hm
    rcases List.mem_append.mp hid with hid | hid
    · exact h.active _ hid (List.mem_map_of_mem (hmem hq))
    · have hgone := (List.mem_filter.mp hid).2
      have hkept := (List.mem_filter.mp hq).2
      simp only [decide_eq_true_eq] at hgone hkept
      exact hkept hgone

theorem Kept.ordered (h : Kept facts revoked) : Ordered facts revoked := by
  induction h with
  | empty => exact ⟨by rintro f ⟨⟩, List.nodup_nil, by rintro f ⟨⟩, by rintro id ⟨⟩, .nil, by rintro f ⟨⟩⟩
  | add _ hguard hnew hactive hpreds ih => exact ih.add hguard hnew hactive hpreds
  | revoke _ gone ih => exact ih.revoke gone

/-- A fact is known by its id. -/
theorem Ordered.unique (h : Ordered facts revoked) (hf : f ∈ facts) (hg : g ∈ facts)
    (he : f.factId = g.factId) : f = g := List.inj_on_of_nodup_map h.ids hf hg he

/-- The predecessors of an active fact. -/
def predecessorsOf (facts : List Fact) (id : PyStr) : List PyStr :=
  (facts.filter fun f => f.factId = id).flatMap Fact.predecessors

theorem mem_predecessorsOf {p id : PyStr} :
    p ∈ predecessorsOf facts id ↔ ∃ f ∈ facts, f.factId = id ∧ p ∈ f.predecessors := by
  simp [predecessorsOf, and_assoc]

/-- An active predecessor was added before. -/
theorem Ordered.rank (h : Ordered facts revoked) (hf : f ∈ facts) (hg : g ∈ facts)
    (hp : g.factId ∈ f.predecessors) :
    (facts.map Fact.factId).idxOf g.factId < (facts.map Fact.factId).idxOf f.factId := by
  obtain ⟨i, hi, rfl⟩ := List.getElem_of_mem hf
  obtain ⟨j, hj, rfl⟩ := List.getElem_of_mem hg
  have hidx : ∀ (k : Nat) (hk : k < facts.length),
      (facts.map Fact.factId).idxOf (facts[k].factId) = k := by
    intro k hk
    have hk' : k < (facts.map Fact.factId).length := by rwa [List.length_map]
    have hget : (facts.map Fact.factId)[k] = facts[k].factId := List.getElem_map _
    rw [← hget]
    exact h.ids.idxOf_getElem k hk'
  rw [hidx, hidx]
  by_contra hle
  rcases Nat.lt_or_eq_of_le (Nat.le_of_not_lt hle) with hlt | rfl
  · exact List.pairwise_iff_getElem.mp h.earlier i j hi hj hlt hp
  · exact h.irreflexive _ hf hp

end Kept

section Pages

/-- The file of a fact: its stem and its bytes. -/
def pageOf (fact : Fact) : PyStr × List Nat := (fact.factId, encodeUtf8 (serializeFact fact))

/-- The files of a directory in the order of their names, by their facts. -/
theorem sortedFiles_pages (facts : List Fact) :
    ∃ order : List Fact, order.Perm facts ∧ sortedFiles (facts.map pageOf) = order.map pageOf := by
  let le (f g : Fact) : Prop := Json.strLe (f.factId ++ ".md".toList) (g.factId ++ ".md".toList) = true
  refine ⟨facts.insertionSort le, List.perm_insertionSort _ _, ?_⟩
  have hmap : (facts.insertionSort le).map (fun f => (f.factId ++ ".md".toList, pageOf f)) =
      (facts.map fun f => (f.factId ++ ".md".toList, pageOf f)).insertionSort
        fun a b => Json.strLe a.1 b.1 = true :=
    List.map_insertionSort _ _ _ _ fun a _ b _ => Iff.rfl
  have hfiles : (facts.map pageOf).map (fun f => (f.1 ++ ".md".toList, f)) =
      facts.map fun f => (f.factId ++ ".md".toList, pageOf f) := by
    rw [List.map_map]
    rfl
  rw [sortedFiles, Json.sortByKey, hfiles, ← hmap, List.map_map]
  rfl

variable {facts order : List Fact} {revoked : List PyStr} {fact : Fact}

/-- The active predecessors of the facts. -/
def depsOf (order : List Fact) : List (PyStr × List PyStr) :=
  order.map fun f => (f.factId, f.predecessors.filter (· ∈ order.map Fact.factId))

theorem depsOf_keys (order : List Fact) : (depsOf order).map Prod.fst = order.map Fact.factId := by
  rw [depsOf, List.map_map]
  rfl

theorem predecessorsIn_depsOf (hn : (order.map Fact.factId).Nodup) (hf : fact ∈ order) :
    predecessorsIn (depsOf order) fact.factId =
      fact.predecessors.filter (· ∈ order.map Fact.factId) := by
  have hkeys : ((depsOf order).map Prod.fst).Nodup := by rwa [depsOf_keys]
  rw [predecessorsIn, lookup_eq_some_of_nodup hkeys (List.mem_map_of_mem hf), Option.getD_some]

variable [FactGraph.Runtime]

/-- A fact as the dashboard loads it. -/
def loadedFact (fact : Fact) : ParsedFact where
  factId := .text fact.factId
  problemId := readValue fact.problemId
  author := readValue (strip fact.author)
  predecessors := .list fact.predecessors
  statement := strip (readSections (universalNewlines (bodyText fact)) .statement)
  proof := strip (readSections (universalNewlines (bodyText fact)) .proof)
  intuition := strip (readSections (universalNewlines (bodyText fact)) .intuition)

theorem loadFact_page (h : fact.Guarded) : loadFact (pageOf fact) = .ok (loadedFact fact) := by
  have hne : fact.factId ≠ [] := by
    have hhex : isHexOf 16 fact.factId = true := by
      rw [h.factId]
      exact factId_isHexOf _ _ _ _ _
    intro he
    rw [he] at hhex
    cases hhex
  have htrue : (Field.text fact.factId).isTrue = true := by simpa [Field.isTrue] using hne
  simp only [loadFact, pageOf, readText, decodeUtf8_encodeUtf8, Except.map, parseFact_page h, htrue,
    if_true]
  rfl

/-- What the files give, one fact after another. -/
theorem mapM_pages (h : ∀ f ∈ order, f.Guarded) :
    (order.map pageOf).mapM loadFact = .ok (order.map loadedFact) := by
  induction order with
  | nil => rfl
  | cons f order ih =>
    rw [List.map_cons, List.mapM_cons, loadFact_page (h f List.mem_cons_self),
      ih fun g hg => h g (List.mem_cons_of_mem _ hg)]
    rfl

theorem mapM_hash (order : List Fact) :
    (order.map loadedFact).mapM (fun f => f.factId.hash) = .ok (order.map Fact.factId) := by
  induction order with
  | nil => rfl
  | cons f order ih =>
    rw [List.map_cons, List.mapM_cons, ih]
    rfl

/-- The node of a fact, by the memo of the depths. -/
def nodeOf (order : List Fact) (depth : List (PyStr × Nat)) (f : Fact) : Node where
  id := f.factId
  author := readValue (strip f.author)
  problemId := readValue f.problemId
  statement := strip (readSections (universalNewlines (bodyText f)) .statement)
  proof := strip (readSections (universalNewlines (bodyText f)) .proof)
  intuition := strip (readSections (universalNewlines (bodyText f)) .intuition)
  predecessors := f.predecessors.filter (· ∈ order.map Fact.factId)
  depth := (depth.lookup f.factId).getD 0

/-- What `build_factgraph` makes of the files: only the depths can fail. -/
theorem buildFactgraph_pages {project : Project} (hp : project.facts = facts.map pageOf)
    (h : Ordered facts revoked) (callDepth : Nat) :
    ∃ order : List Fact, order.Perm facts ∧ buildFactgraph callDepth project =
      (depths callDepth (depsOf order)).map fun depth =>
        { nodes := order.map (nodeOf order depth)
          edges := order.flatMap fun f =>
            (f.predecessors.filter (· ∈ order.map Fact.factId)).map fun p => (p, f.factId)
          maxDepth := (depth.map Prod.snd).foldl max 0 } := by
  obtain ⟨order, hperm, hfiles⟩ := sortedFiles_pages facts
  refine ⟨order, hperm, ?_⟩
  have hn : (order.map Fact.factId).Nodup := (hperm.map _).nodup_iff.mpr h.ids
  have hload : loadFacts project = .ok (order.map loadedFact) := by
    rw [loadFacts, hp, hfiles]
    exact mapM_pages fun f hf => h.guarded f (hperm.subset hf)
  have hzip : (order.map Fact.factId).zip (order.map loadedFact) =
      order.map fun f => (f.factId, loadedFact f) := List.zip_map' ..
  have hdeps : ((order.map fun f => (f.factId, loadedFact f)).map fun f =>
      (f.1, f.2.predecessors.elements.filter (· ∈ order.map Fact.factId))).foldl setEntry [] =
      depsOf order := by
    have hkeys : (([] ++ depsOf order).map Prod.fst).Nodup := by
      rw [List.nil_append, depsOf_keys]
      exact hn
    rw [List.map_map]
    exact setEntries hkeys
  have hpreds : ∀ f ∈ order, predecessorsIn (depsOf order) f.factId =
      f.predecessors.filter (· ∈ order.map Fact.factId) := fun f hf => predecessorsIn_depsOf hn hf
  rw [buildFactgraph, hload]
  show ((order.map loadedFact).mapM (fun f => f.factId.hash) >>= _) = _
  rw [mapM_hash]
  show (depths callDepth (((((order.map Fact.factId).zip (order.map loadedFact)).map fun f =>
    (f.1, f.2.predecessors.elements.filter (· ∈ order.map Fact.factId)))).foldl setEntry []) >>= _) = _
  rw [hzip, hdeps]
  cases depths callDepth (depsOf order) with
  | error e => rfl
  | ok depth =>
    show Except.ok _ = Except.ok _
    congr 2
    · rw [List.map_map]
      refine List.map_congr_left fun f hf => ?_
      simp only [Function.comp, nodeOf, loadedFact, hpreds f hf]
    · rw [List.flatMap_def, List.flatMap_def, List.map_map]
      congr 1
      refine List.map_congr_left fun f hf => ?_
      simp only [Function.comp, hpreds f hf]

end Pages

section Shown

/-- A value that the dashboard reads as a list. -/
def Bracketed (v : PyStr) : Prop := v.head? = some '[' ∧ v.getLast? = some ']'

theorem readValue_text {v : PyStr} : readValue v = .text v ↔ ¬ Bracketed v := by
  unfold readValue Bracketed
  split_ifs with h
  · simp [h]
  · simp only [h, not_false_eq_true]

variable [FactGraph.Runtime] {facts : List Fact} {revoked : List PyStr} {fact : Fact}

/-- A node shows a fact. -/
structure ShowsFact (facts : List Fact) (f : Fact) (node : Node) : Prop where
  id : node.id = f.factId
  author : node.author = .text (strip f.author)
  problemId : node.problemId = .text f.problemId
  statement : node.statement = strip f.statement
  proof : node.proof = strip f.proof
  intuition : node.intuition = strip f.intuition
  predecessors : node.predecessors = f.predecessors
  depth : Longest (predecessorsOf facts) f.factId node.depth

/-- The nodes are those of the active facts, each one once, and the edges are the predecessors. -/
structure ShowsGraph (facts : List Fact) (g : FactGraphResp) : Prop where
  nodes : ∃ order : List Fact, order.Perm facts ∧ List.Forall₂ (ShowsFact facts) order g.nodes
  edges : ∀ p q, (p, q) ∈ g.edges ↔ ∃ f ∈ facts, f.factId = q ∧ p ∈ f.predecessors

/-- What the dashboard can show of the facts. -/
structure Displayable (facts : List Fact) : Prop where
  problems : ∀ f ∈ facts, ¬ Bracketed f.problemId
  authors : ∀ f ∈ facts, ¬ Bracketed (strip f.author)
  texts : ∀ f ∈ facts, ∀ s, PlainText (textOf f s)
  closed : ∀ f ∈ facts, ∀ p ∈ f.predecessors, p ∈ facts.map Fact.factId

/-- Where all predecessors are active, the dashboard follows all of them. -/
theorem Displayable.deps (h : Displayable facts) {order : List Fact} (hperm : order.Perm facts)
    (hn : (facts.map Fact.factId).Nodup) (a p : PyStr) :
    p ∈ predecessorsIn (depsOf order) a ↔ p ∈ predecessorsOf facts a := by
  have hn' : (order.map Fact.factId).Nodup := (hperm.map _).nodup_iff.mpr hn
  rw [mem_predecessorsOf]
  constructor
  · intro hp
    rw [predecessorsIn] at hp
    cases hl : (depsOf order).lookup a with
    | none =>
      rw [hl] at hp
      cases hp
    | some ps =>
      obtain ⟨f, hf, he⟩ := List.mem_map.mp (mem_of_lookup_eq_some hl)
      cases he
      rw [hl] at hp
      exact ⟨f, hperm.subset hf, rfl, (List.mem_filter.mp hp).1⟩
  · rintro ⟨f, hf, rfl, hp⟩
    rw [predecessorsIn_depsOf hn' (hperm.symm.subset hf)]
    refine List.mem_filter.mpr ⟨hp, ?_⟩
    rw [decide_eq_true_eq, (hperm.map Fact.factId).mem_iff]
    exact h.closed f hf p hp

/-- Displayable facts are shown, where the interpreter's stack holds the longest chain. -/
theorem buildFactgraph_shows {project : Project} (hp : project.facts = facts.map pageOf)
    (ho : Ordered facts revoked) (h : Displayable facts) {callDepth : Nat}
    (hfit : ∀ a n, Chain (predecessorsOf facts) n a → n < callDepth) :
    ∃ g, buildFactgraph callDepth project = .ok g ∧ ShowsGraph facts g := by
  obtain ⟨order, hperm, hbuild⟩ := buildFactgraph_pages hp ho callDepth
  have hdeps := h.deps hperm ho.ids
  have hrank : ∀ a, ∀ p ∈ predecessorsIn (depsOf order) a,
      (facts.map Fact.factId).idxOf p < (facts.map Fact.factId).idxOf a := by
    intro a p hm
    obtain ⟨f, hf, rfl, hpf⟩ := mem_predecessorsOf.mp ((hdeps a p).mp hm)
    obtain ⟨g, hg, rfl⟩ := List.mem_map.mp (h.closed f hf p hpf)
    exact ho.rank hf hg hpf
  obtain ⟨depth, hdepth, hsound, hknown⟩ := depths_longest hrank fun a n hc =>
    hfit a n (hc.congr fun a p => (hdeps a p).mp)
  rw [hdepth] at hbuild
  refine ⟨_, hbuild, ⟨order, hperm, ?_⟩, fun p q => ?_⟩
  · rw [List.forall₂_map_right_iff]
    refine List.forall₂_same.mpr fun f hf => ?_
    have hf' := hperm.subset hf
    have htexts := (sections_exact f).mpr (h.texts f hf')
    refine ⟨rfl, readValue_text.mpr (h.authors f hf'), readValue_text.mpr (h.problems f hf'),
      htexts .statement, htexts .proof, htexts .intuition, ?_, ?_⟩
    · refine List.filter_eq_self.mpr fun p hpf => ?_
      rw [decide_eq_true_eq, (hperm.map Fact.factId).mem_iff]
      exact h.closed f hf' p hpf
    · have hmem : (f.factId, f.predecessors.filter (· ∈ order.map Fact.factId)) ∈ depsOf order :=
        List.mem_map_of_mem hf
      obtain ⟨d, hd⟩ := Option.isSome_iff_exists.mp (hknown _ hmem)
      have hlong := hsound _ _ hd
      have hnode : (nodeOf order depth f).depth = d := by
        rw [nodeOf, hd]
        rfl
      rw [hnode]
      exact ⟨hlong.chain.congr fun a p => (hdeps a p).mp,
        fun n hn => hlong.le n (hn.congr fun a p => (hdeps a p).mpr)⟩
  · simp only [List.mem_flatMap, List.mem_map, List.mem_filter, decide_eq_true_eq]
    constructor
    · rintro ⟨f, hf, p', ⟨hpf, _⟩, he⟩
      cases he
      exact ⟨f, hperm.subset hf, rfl, hpf⟩
    · rintro ⟨f, hf, rfl, hpf⟩
      refine ⟨f, hperm.symm.subset hf, p, ⟨hpf, ?_⟩, rfl⟩
      obtain ⟨g, hg, he⟩ := List.mem_map.mp (h.closed f hf p hpf)
      exact ⟨g, hperm.symm.subset hg, he⟩

/-- What is shown is displayable. -/
theorem displayable_of_shows {project : Project} (hp : project.facts = facts.map pageOf)
    (ho : Ordered facts revoked) {callDepth : Nat} {g : FactGraphResp}
    (hb : buildFactgraph callDepth project = .ok g) (hs : ShowsGraph facts g) : Displayable facts := by
  obtain ⟨order, hperm, hbuild⟩ := buildFactgraph_pages hp ho callDepth
  obtain ⟨order', hperm', hnodes⟩ := hs.nodes
  rw [hb] at hbuild
  -- the node of a fact is the one with its id
  have hnode : ∀ f ∈ facts, ∃ depth, ShowsFact facts f (nodeOf order depth f) := by
    intro f hf
    cases hd : depths callDepth (depsOf order) with
    | error e =>
      rw [hd] at hbuild
      cases hbuild
    | ok depth =>
      rw [hd] at hbuild
      have hg : g.nodes = order.map (nodeOf order depth) := by
        cases hbuild
        rfl
      obtain ⟨node, hmem, hshows⟩ : ∃ node ∈ g.nodes, ShowsFact facts f node := by
        obtain ⟨i, hi, hfi⟩ := List.getElem_of_mem (hperm'.symm.subset hf)
        have hi' : i < g.nodes.length := hnodes.length_eq ▸ hi
        have hget := hnodes.get hi hi'
        rw [List.get_eq_getElem, List.get_eq_getElem, hfi] at hget
        exact ⟨g.nodes[i], List.getElem_mem hi', hget⟩
      rw [hg] at hmem
      obtain ⟨f', hf', rfl⟩ := List.mem_map.mp hmem
      have he : f' = f := ho.unique (hperm.subset hf') hf hshows.id
      subst he
      exact ⟨depth, hshows⟩
  refine ⟨fun f hf => ?_, fun f hf => ?_, fun f hf => ?_, fun f hf p hpf => ?_⟩
  · obtain ⟨depth, h⟩ := hnode f hf
    exact readValue_text.mp h.problemId
  · obtain ⟨depth, h⟩ := hnode f hf
    exact readValue_text.mp h.author
  · obtain ⟨depth, h⟩ := hnode f hf
    refine (sections_exact f).mp fun s => ?_
    cases s
    · exact h.statement
    · exact h.proof
    · exact h.intuition
  · obtain ⟨depth, h⟩ := hnode f hf
    have hmem := List.filter_eq_self.mp h.predecessors p hpf
    rwa [decide_eq_true_eq, (hperm.map Fact.factId).mem_iff] at hmem

end Shown
end Danus.Observability
