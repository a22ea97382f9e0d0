import Danus.FactGraph.Revocation
import Danus.Lib.JsonDistinct
import Danus.Lib.JsonPieces
import Danus.Lib.Records

/-! What a revocation that returns has done to the graph, and a cascade that is killed and resumed. -/
namespace Danus.FactGraph.Revocation
open Python Sweeps Searches

section Files
variable {d : Directory} {id other : PyStr} {text : FileText}

theorem lookup_eraseKey {files : List (PyStr × FileText)} :
    (eraseKey id files).lookup other = if other = id then none else files.lookup other := by
  induction files with
  | nil => simp [eraseKey]
  | cons file files ih =>
    rw [eraseKey] at ih ⊢
    rw [List.filter_cons]
    by_cases hf : file.1 = id
    · rw [if_neg (by simp [hf]), ih, List.lookup_cons]
      by_cases ho : other = id
      · rw [if_pos ho, if_pos ho]
      · have hne : (other == file.1) = false := by simpa [hf] using ho
        rw [if_neg ho, if_neg ho, hne]
    · rw [if_pos (by simpa using hf), List.lookup_cons, List.lookup_cons, ih]
      by_cases ho : other = id
      · have hne : (other == file.1) = false := by simpa [ho] using fun h => hf h.symm
        rw [if_pos ho, if_pos ho, hne]
      · rw [if_neg ho, if_neg ho]

theorem lookup_remove : (d.remove id).files.lookup other = if other = id then none else d.files.lookup other :=
  lookup_eraseKey

theorem lookup_add (h : d.has id = false) :
    (d.add id text h).files.lookup other = if other = id then some text else d.files.lookup other := by
  rw [Directory.add, List.lookup_cons]
  by_cases ho : other = id
  · simp [ho]
  · have hne : (other == id) = false := by simpa using ho
    rw [hne, if_neg ho]

theorem has_eq_false : d.has id = false ↔ d.files.lookup id = none := by
  rw [Directory.has, Option.isSome_eq_false_iff, Option.isNone_iff_eq_none]

end Files

section Moves
variable {g g' : Graph} {id : PyStr} {ids : List PyStr} {text : FileText}

/-- The graph after one move. -/
def Graph.moved (g : Graph) (id : PyStr) (text : FileText) (h : g.revoked.has id = false) : Graph :=
  { g with facts := g.facts.remove id, revoked := g.revoked.add id text h }

theorem moveFacts_move (hf : g.facts.files.lookup id = some text) (hr : g.revoked.has id = false) :
    moveFacts (id :: ids) g = moveFacts ids (g.moved id text hr) := by
  rw [moveFacts]
  split
  · next hrev => rw [hr] at hrev; cases hrev
  · next text' hf' _ =>
    rw [hf] at hf'
    cases hf'
    rfl
  · next hf' _ => rw [hf] at hf'; cases hf'
  · next hf' _ => rw [hf] at hf'; cases hf'

theorem moveFacts_done (hf : g.facts.files.lookup id = none) (hr : g.revoked.has id = true) :
    moveFacts (id :: ids) g = moveFacts ids g := by
  rw [moveFacts]
  split
  · next hf' _ => rw [hf] at hf'; cases hf'
  · next hf' _ => rw [hf] at hf'; cases hf'
  · rfl
  · next hr' => rw [hr] at hr'; cases hr'

/-- Why the moves stop at a file that is in both stores, or in neither of them. -/
def stuckError (id : PyStr) (both : Bool) : GraphError :=
  if both = true then .value ("fact_integrity_error: ".toList ++ id ++ " exists in active and revoked stores".toList)
  else .value ("fact_graph_recovery_error: pending fact disappeared: ".toList ++ id)

theorem moveFacts_stuck (h : (g.facts.files.lookup id).isSome = g.revoked.has id) :
    moveFacts (id :: ids) g = (.error (stuckError id (g.revoked.has id)), g) := by
  rw [moveFacts]
  split
  · next hr =>
    rw [hr]
    rfl
  · next hf hr =>
    rw [hf, hr] at h
    cases h
  · next hf hr =>
    rw [hf, hr] at h
    cases h
  · next hr =>
    rw [hr]
    rfl

/-- The four ways in which the list goes on. -/
theorem move_cases (g : Graph) (id : PyStr) :
    (∃ text, g.facts.files.lookup id = some text ∧ g.revoked.has id = false) ∨
    (g.facts.files.lookup id = none ∧ g.revoked.has id = true) ∨
    (g.facts.files.lookup id).isSome = g.revoked.has id := by
  cases g.facts.files.lookup id <;> cases g.revoked.has id <;> simp

/-- A file that is not on the list stays where it is. -/
theorem moveFacts_other (hid : id ∉ ids) :
    (moveFacts ids g).2.facts.files.lookup id = g.facts.files.lookup id ∧
    (moveFacts ids g).2.revoked.files.lookup id = g.revoked.files.lookup id := by
  induction ids generalizing g with
  | nil => exact ⟨rfl, rfl⟩
  | cons first ids ih =>
    rw [List.mem_cons, not_or] at hid
    rcases move_cases g first with ⟨text, hf, hr⟩ | ⟨hf, hr⟩ | h
    · rw [moveFacts_move hf hr]
      obtain ⟨hfacts, hrevoked⟩ := ih (g := g.moved first text hr) hid.2
      exact ⟨hfacts.trans (lookup_remove.trans (if_neg hid.1)),
        hrevoked.trans ((lookup_add hr).trans (if_neg hid.1))⟩
    · rw [moveFacts_done hf hr]
      exact ih hid.2
    · rw [moveFacts_stuck h]
      exact ⟨rfl, rfl⟩

/-- The moves that are done are no moves any more: the list is taken up where the last run left it. -/
theorem moveFacts_resume (hn : ids.Nodup) (k : Nat) (g : Graph) :
    moveFacts ids (moveFacts (ids.take k) g).2 = moveFacts ids g := by
  induction ids generalizing g k with
  | nil => cases k <;> rfl
  | cons id ids ih =>
    obtain ⟨hnew, hn⟩ := List.nodup_cons.mp hn
    cases k with
    | zero => rfl
    | succ k =>
      have hrest : id ∉ ids.take k := fun h => hnew (List.mem_of_mem_take h)
      rw [List.take_succ_cons]
      -- the state after the first step has this file in the revoked store alone, and no later move touches it
      have hskip : ∀ s : Graph, s.facts.files.lookup id = none → s.revoked.has id = true →
          moveFacts (id :: ids) (moveFacts (ids.take k) s).2 = moveFacts ids s := by
        intro s hf hr
        obtain ⟨hfacts, hrevoked⟩ := moveFacts_other (g := s) hrest
        rw [moveFacts_done (hfacts.trans hf) (by rw [Directory.has, hrevoked]; exact hr), ih hn]
      rcases move_cases g id with ⟨text, hf, hr⟩ | ⟨hf, hr⟩ | h
      · rw [moveFacts_move hf hr, moveFacts_move hf hr]
        refine hskip _ (lookup_remove.trans (if_pos rfl)) ?_
        rw [Directory.has, Graph.moved, lookup_add hr, if_pos rfl]
        rfl
      · rw [moveFacts_done hf hr, moveFacts_done hf hr]
        exact hskip g hf hr
      · rw [moveFacts_stuck h, moveFacts_stuck h]

/-- Moves that all succeed: each file of the list is where the revoked facts are, with the text that it had. -/
theorem moveFacts_moves (hn : ids.Nodup) (hactive : ∀ id ∈ ids, g.facts.has id = true)
    (h : moveFacts ids g = (.ok (), g')) (id : PyStr) :
    g'.facts.files.lookup id = (if id ∈ ids then none else g.facts.files.lookup id) ∧
    g'.revoked.files.lookup id = if id ∈ ids then g.facts.files.lookup id else g.revoked.files.lookup id := by
  induction ids generalizing g with
  | nil =>
    cases h
    exact ⟨rfl, rfl⟩
  | cons first ids ih =>
    obtain ⟨hnew, hn⟩ := List.nodup_cons.mp hn
    rw [List.forall_mem_cons] at hactive
    rcases move_cases g first with ⟨text, hf, hr⟩ | ⟨hf, _⟩ | hstuck
    · rw [moveFacts_move hf hr] at h
      have hkept : ∀ other ∈ ids, (g.moved first text hr).facts.has other = true := fun other ho =>
        (has_remove _ _ _).mpr ⟨hactive.2 other ho, fun he => hnew (he ▸ ho)⟩
      obtain ⟨hfacts, hrevoked⟩ := ih hn hkept h
      have hremoved : (g.moved first text hr).facts.files.lookup id =
          if id = first then none else g.facts.files.lookup id := lookup_remove
      have hadded : (g.moved first text hr).revoked.files.lookup id =
          if id = first then some text else g.revoked.files.lookup id := lookup_add hr
      rw [hremoved] at hfacts hrevoked
      rw [hadded] at hrevoked
      rw [hfacts, hrevoked]
      by_cases he : id = first
      · subst he
        rw [if_neg hnew, if_pos rfl, if_neg hnew, if_pos rfl, if_pos List.mem_cons_self,
          if_pos List.mem_cons_self, hf]
        exact ⟨rfl, rfl⟩
      · simp only [he, List.mem_cons, false_or, if_false]
        exact ⟨trivial, trivial⟩
    · have hhas := hactive.1
      rw [Directory.has, hf] at hhas
      cases hhas
    · rw [moveFacts_stuck hstuck] at h
      cases h

end Moves
section Rest
variable {g g' : Graph} {ids moved : List PyStr} {log : Option FileText}

theorem sortStr_filter (p : PyStr → Bool) (l : List PyStr) : (sortStr l).filter p = sortStr (l.filter p) := by
  have hsorted : sortStr ((sortStr l).filter p) = (sortStr l).filter p :=
    ((List.pairwise_insertionSort _ l).sublist List.filter_sublist).insertionSort_eq
  exact hsorted.symm.trans (sortStr_congr ((sortStr_perm l).filter p))

/-- The files that are on no list. -/
def Graph.rest (g : Graph) (ids : List PyStr) : List (PyStr × FileText) := g.facts.files.filter (·.1 ∉ ids)

theorem moveFacts_rest (hsub : ∀ id ∈ moved, id ∈ ids) : (moveFacts moved g).2.rest ids = g.rest ids := by
  induction moved generalizing g with
  | nil => rfl
  | cons id moved ih =>
    rw [List.forall_mem_cons] at hsub
    rcases move_cases g id with ⟨text, hf, hr⟩ | ⟨hf, hr⟩ | h
    · rw [moveFacts_move hf hr, ih hsub.2]
      simp only [Graph.rest, Graph.moved, Directory.remove, eraseKey, List.filter_filter]
      refine List.filter_congr fun file _ => ?_
      by_cases hid : file.1 = id
      · simp [hid, hsub.1]
      · simp [hid]
    · rw [moveFacts_done hf hr]
      exact ih hsub.2
    · rw [moveFacts_stuck h]

theorem list_rest (g : Graph) (ids : List PyStr) : g.list.filter (· ∉ ids) = sortStr ((g.rest ids).map Prod.fst) := by
  rw [Graph.list, sortStr_filter, Graph.rest, List.filter_map]
  rfl

theorem lookup_rest {id : PyStr} (hid : id ∉ ids) : (g.rest ids).lookup id = g.facts.files.lookup id := by
  rw [Graph.rest]
  induction g.facts.files with
  | nil => rfl
  | cons file files ih =>
    rw [List.filter_cons, List.lookup_cons]
    split
    · rw [List.lookup_cons, ih]
    · next hf =>
      have hne : (id == file.1) = false := by
        rw [beq_eq_false_iff_ne]
        rintro rfl
        exact hf (by simpa using hid)
      rw [ih, hne]

def Graph.withLog (g : Graph) (log : Option FileText) : Graph := { g with revocationLog := log }

theorem withLog_withLog (g : Graph) (log log' : Option FileText) :
    (g.withLog log).withLog log' = g.withLog log' := rfl

theorem withLog_self (h : g.revocationLog = log) : g.withLog log = g := by
  rw [Graph.withLog, ← h]

/-- The moves neither read nor write the log. -/
theorem moveFacts_withLog (log : Option FileText) (ids : List PyStr) (g : Graph) :
    moveFacts ids (g.withLog log) = ((moveFacts ids g).1, (moveFacts ids g).2.withLog log) := by
  induction ids generalizing g with
  | nil => rfl
  | cons id ids ih =>
    rcases move_cases g id with ⟨text, hf, hr⟩ | ⟨hf, hr⟩ | h
    · rw [moveFacts_move hf hr, moveFacts_move (g := g.withLog log) hf hr]
      exact ih (g.moved id text hr)
    · rw [moveFacts_done hf hr, moveFacts_done (g := g.withLog log) hf hr]
      exact ih g
    · rw [moveFacts_stuck h, moveFacts_stuck (g := g.withLog log) h]
      rfl

theorem moveFacts_glossary (ids : List PyStr) (g : Graph) : (moveFacts ids g).2.glossary = g.glossary := by
  induction ids generalizing g with
  | nil => rfl
  | cons id ids ih =>
    rcases move_cases g id with ⟨text, hf, hr⟩ | ⟨hf, hr⟩ | h
    · rw [moveFacts_move hf hr]
      exact ih (g.moved id text hr)
    · rw [moveFacts_done hf hr]
      exact ih g
    · rw [moveFacts_stuck h]

variable [Runtime]

/-- The glossary of the facts that stay depends on them alone. -/
theorem activeGlossary_congr (hrest : g'.rest ids = g.rest ids)
    (hrevoked : ∀ id, id ∉ ids → g'.revoked.has id = g.revoked.has id) :
    g'.activeGlossaryExcluding ids = g.activeGlossaryExcluding ids := by
  have hfact : ∀ id, id ∉ ids → ∀ rebuilt, g'.addFactTerms rebuilt id = g.addFactTerms rebuilt id := by
    intro id hid rebuilt
    have hlookup : g'.facts.files.lookup id = g.facts.files.lookup id := by
      rw [← lookup_rest hid, hrest, lookup_rest hid]
    simp only [Graph.addFactTerms, Graph.getRaw, hlookup, hrevoked id hid]
  have hall : ∀ l : List PyStr, (∀ id ∈ l, id ∉ ids) → ∀ rebuilt,
      l.foldlM g'.addFactTerms rebuilt = l.foldlM g.addFactTerms rebuilt := by
    intro l
    induction l with
    | nil => exact fun _ _ => rfl
    | cons id l ih =>
      intro hl rebuilt
      rw [List.forall_mem_cons] at hl
      rw [List.foldlM_cons, List.foldlM_cons, hfact id hl.1]
      exact bind_congr fun r => ih hl.2 r
  have hlist : g'.list.filter (· ∉ ids) = g.list.filter (· ∉ ids) := by rw [list_rest, list_rest, hrest]
  rw [Graph.activeGlossaryExcluding, Graph.activeGlossaryExcluding, hlist]
  exact hall _ (fun id hid => by simpa using (List.mem_filter.mp hid).2) []

end Rest

section Kills
variable {g g' g'' : Graph} {pending : Pending} {rebuilt : List (PyStr × PyStr)}

/-- The graph of a cascade once its glossary is written. -/
def Graph.cleared (g : Graph) (rebuilt : List (PyStr × PyStr)) : Graph :=
  { g with glossary := some (.ok (glossaryFile rebuilt)) }

/-- What `_resume_pending_revocation_unlocked` leaves when its process is killed: the glossary is replaced at once,
the files are moved one by one, and the log is replaced at once before the journal goes. -/
inductive Killed [Runtime] (g : Graph) : Graph → Prop where
  | before : Killed g g
  | moving {pending : Pending} {rebuilt : List (PyStr × PyStr)} (k : Nat) :
      loadPending g.pendingRevocation = .ok (some pending) →
      g.activeGlossaryExcluding pending.factIds = .ok rebuilt →
      Killed g (moveFacts (pending.factIds.take k) (g.cleared rebuilt)).2
  | logged {pending : Pending} {rebuilt : List (PyStr × PyStr)} {moved : Graph}
      {entries : List (List (PyStr × Json))} :
      loadPending g.pendingRevocation = .ok (some pending) →
      g.activeGlossaryExcluding pending.factIds = .ok rebuilt →
      moveFacts pending.factIds (g.cleared rebuilt) = (.ok (), moved) →
      readRevocationLogStrict moved.revocationLog = .ok entries →
      Killed g (moved.withLog (some (.ok (revocationLogText pending entries))))

/-- The checks of a journal. -/
theorem loadPending_checks {text : Option FileText} (h : loadPending text = .ok (some pending)) :
    isSafeFactId pending.rootFactId = true ∧ pending.factIds.Nodup ∧
      ∀ id ∈ pending.factIds, isSafeFactId id = true := by
  cases text with
  | none => cases h
  | some text =>
    rw [loadPending] at h
    obtain ⟨raw, _, h⟩ := Checks.bind_ok.mp h
    split at h
    · cases h
    · split at h
      · split at h
        · split_ifs at h with hchecks
          cases h
          exact ⟨hchecks.1, hchecks.2.2⟩
        · cases h
      · cases h
    · cases h

theorem loadPending_nodup {text : Option FileText} (h : loadPending text = .ok (some pending)) :
    pending.factIds.Nodup := (loadPending_checks h).2.1

/-- The journal and the log hold no line break that JSON writes as it is. -/
structure Graph.OneLined (g : Graph) : Prop where
  journal : ∀ pending, loadPending g.pendingRevocation = .ok (some pending) →
    ∀ s ∈ [pending.revocationId, pending.timestampUtc, pending.reason], ∀ c ∈ s, isRawBreak c = false
  log : ∀ entries, readRevocationLogStrict g.revocationLog = .ok entries →
    ∀ entry ∈ entries, (Json.obj entry).OneLine

theorem logEntries_distinct {lines : List PyStr} {n : Nat} {entries : List (List (PyStr × Json))}
    (h : logEntries n lines = .ok entries) : ∀ entry ∈ entries, (Json.obj entry).distinctKeys = true := by
  induction lines generalizing n entries with
  | nil =>
    cases h
    simp
  | cons line lines ih =>
    rw [logEntries] at h
    split at h
    · exact ih h
    · split at h
      · next entry hentry =>
        obtain ⟨more, hmore, rfl⟩ := Checks.map_ok.mp h
        exact List.forall_mem_cons.mpr ⟨Json.loads_distinct hentry, ih hmore⟩
      · cases h

theorem readLog_distinct {log : Option FileText} {entries : List (List (PyStr × Json))}
    (h : readRevocationLogStrict log = .ok entries) : ∀ entry ∈ entries, (Json.obj entry).distinctKeys = true := by
  cases log with
  | none =>
    cases h
    simp
  | some text =>
    obtain ⟨raw, _, h⟩ := Checks.bind_ok.mp h
    exact logEntries_distinct h

/-- A log of objects that are one line each is read back. -/
theorem readLog_written {entries : List (List (PyStr × Json))}
    (hd : ∀ entry ∈ entries, (Json.obj entry).distinctKeys = true)
    (ho : ∀ entry ∈ entries, (Json.obj entry).OneLine) :
    readRevocationLogStrict (some (.ok (entries.flatMap fun entry =>
      (Json.obj entry).dumps (Json.spaced false false) ++ ['\n']))) = .ok entries := by
  have hline : ∀ entry, (Json.obj entry).OneLine →
      ∀ c ∈ (Json.obj entry).dumps (Json.spaced false false), isLineBreak c = false := by
    intro entry hone c hc
    rw [← Bool.not_eq_true]
    intro hbreak
    have hraw := isRawBreak_of_printable hbreak (Json.printable_dumps (by decide) (by decide) (.obj entry) c hc)
    obtain ⟨t, ht, hmem⟩ := ((Json.veils_dumps (.obj entry)).mem c hraw).mp hc
    rw [hone t ht c hmem] at hraw
    cases hraw
  have hobject : ∀ entry, strip ((Json.obj entry).dumps (Json.spaced false false)) ≠ [] := by
    intro entry
    obtain ⟨rest, hrest⟩ : ∃ rest, (Json.obj entry).dumps (Json.spaced false false) = '\x7b' :: rest := by
      rw [Json.dumps]
      exact ⟨_, rfl⟩
    obtain ⟨t, ht⟩ := strip_cons (c := '\x7b') (by decide) rest
    rw [hrest, ht]
    exact List.cons_ne_nil _ _
  show logEntries 1 (splitlines _) = .ok entries
  generalize 1 = n
  induction entries generalizing n with
  | nil => rfl
  | cons entry entries ih =>
    rw [List.forall_mem_cons] at hd ho
    rw [List.flatMap_cons, List.append_assoc, List.singleton_append, splitlines_fed, fedLines_line (hline entry ho.1),
      List.singleton_append, logEntries, if_neg (hobject entry)]
    have hparse : Json.parse ((Json.obj entry).dumps (Json.spaced false false)) = some (.obj entry) := by
      have hnone : ∀ c ∈ ([] : PyStr), Json.isJsonSpace c = true := by simp
      have h := Json.parse_dumps false hd.1 hnone
      rwa [List.append_nil] at h
    rw [hparse]
    simp only [ih hd.2 ho.2]
    rfl

theorem logEntry_distinct (pending : Pending) (id : PyStr) :
    (Json.obj (logEntry pending id)).distinctKeys = true := by
  have hkeys : ["timestamp_utc".toList, "fact_id".toList, "reason".toList, "revoked_as_dependent_of".toList,
      "revocation_id".toList].Nodup := by decide
  rw [Json.distinct_obj]
  refine ⟨hkeys, ?_⟩
  simp only [logEntry, List.forall_mem_cons]
  refine ⟨rfl, rfl, rfl, ?_, rfl, by simp⟩
  split <;> rfl

theorem safeId_unbroken {id : PyStr} (h : isSafeFactId id = true) : ∀ c ∈ id, isRawBreak c = false :=
  fun c hc => Json.not_isRawBreak_of_isPlain ((isSafeFactId_chars h).2 c hc).1

theorem logEntry_oneLine (hroot : isSafeFactId pending.rootFactId = true) {id : PyStr} (hid : isSafeFactId id = true)
    (h : ∀ s ∈ [pending.revocationId, pending.timestampUtc, pending.reason], ∀ c ∈ s, isRawBreak c = false) :
    (Json.obj (logEntry pending id)).OneLine := by
  have hkeys : ∀ s ∈ ["timestamp_utc".toList, "fact_id".toList, "reason".toList, "revoked_as_dependent_of".toList,
      "revocation_id".toList], ∀ c ∈ s, isRawBreak c = false := by decide
  simp only [List.forall_mem_cons] at h hkeys
  obtain ⟨hrevocation, htime, hreason, -⟩ := h
  obtain ⟨k1, k2, k3, k4, k5, -⟩ := hkeys
  have hdepends : ∀ s ∈ Json.strings (if id ≠ pending.rootFactId then .str pending.rootFactId else .null),
      ∀ c ∈ s, isRawBreak c = false := by
    split
    · rw [Json.strings, List.forall_mem_singleton]
      exact safeId_unbroken hroot
    · simp [Json.strings]
  rw [Json.OneLine, logEntry]
  simp only [Json.strings, Json.stringsFields, List.forall_mem_cons, List.forall_mem_append, List.cons_append,
    List.nil_append]
  exact ⟨k1, htime, k2, safeId_unbroken hid, k3, hreason, k4, hdepends, k5, hrevocation, by simp⟩

/-- The log that the cascade writes is read back. -/
theorem relogged (h : g.OneLined) {entries : List (List (PyStr × Json))}
    (hload : loadPending g.pendingRevocation = .ok (some pending))
    (hread : readRevocationLogStrict g.revocationLog = .ok entries) :
    readRevocationLogStrict (some (.ok (revocationLogText pending entries))) =
      .ok (entries ++ (fresh (entries.filterMap entryId) pending.factIds).map (logEntry pending)) := by
  refine readLog_written (fun entry he => ?_) fun entry he => ?_
  · rcases List.mem_append.mp he with he | he
    · exact readLog_distinct hread entry he
    · obtain ⟨id, _, rfl⟩ := List.mem_map.mp he
      exact logEntry_distinct pending id
  · rcases List.mem_append.mp he with he | he
    · exact h.log entries hread entry he
    · obtain ⟨id, hid, rfl⟩ := List.mem_map.mp he
      obtain ⟨hroot, -, hsafe⟩ := loadPending_checks hload
      exact logEntry_oneLine hroot (hsafe id (mem_fresh.mp hid).1) (h.journal pending hload)

/-- A cascade that was killed is the same cascade. -/
structure Midway (g : Graph) (pending : Pending) (rebuilt : List (PyStr × PyStr)) (g' : Graph) : Prop where
  journal : g'.pendingRevocation = g.pendingRevocation
  glossary : g'.glossary = some (.ok (glossaryFile rebuilt))
  rest : g'.rest pending.factIds = g.rest pending.factIds
  revoked : ∀ id, id ∉ pending.factIds → g'.revoked.has id = g.revoked.has id
  moves : moveFacts pending.factIds g' = ((moveFacts pending.factIds (g.cleared rebuilt)).1,
    (moveFacts pending.factIds (g.cleared rebuilt)).2.withLog g'.revocationLog)
  log : g'.revocationLog = g.revocationLog ∨ (moveFacts pending.factIds (g.cleared rebuilt)).1 = .ok () ∧
    ∃ entries, readRevocationLogStrict g.revocationLog = .ok entries ∧
      g'.revocationLog = some (.ok (revocationLogText pending entries))

theorem entryId_logEntry (pending : Pending) (id : PyStr) : entryId (logEntry pending id) = some id := rfl

theorem filterMap_logEntry (pending : Pending) (ids : List PyStr) :
    (ids.map (logEntry pending)).filterMap entryId = ids := by
  induction ids with
  | nil => rfl
  | cons id ids ih => rw [List.map_cons, List.filterMap_cons_some (entryId_logEntry pending id), ih]

/-- The log is not written a second time in another way. -/
theorem revocationLogText_again (entries : List (List (PyStr × Json))) :
    revocationLogText pending
      (entries ++ (fresh (entries.filterMap entryId) pending.factIds).map (logEntry pending)) =
      revocationLogText pending entries := by
  have hnone : fresh ((entries ++ (fresh (entries.filterMap entryId) pending.factIds).map
      (logEntry pending)).filterMap entryId) pending.factIds = [] := by
    rw [List.eq_nil_iff_forall_not_mem, List.filterMap_append, filterMap_logEntry]
    intro id hid
    obtain ⟨hmem, hnew⟩ := mem_fresh.mp hid
    rw [List.mem_append, not_or] at hnew
    exact hnew.2 (mem_fresh.mpr ⟨hmem, hnew.1⟩)
  rw [revocationLogText, hnone, List.map_nil, List.append_nil]
  rfl

theorem has_congr {d d' : Directory} {id : PyStr} (h : d'.files.lookup id = d.files.lookup id) :
    d'.has id = d.has id := by
  rw [Directory.has, h, Directory.has]

/-- A run that is killed between two moves leaves its cascade midway. -/
theorem midway_moving (hload : loadPending g.pendingRevocation = .ok (some pending)) (k : Nat) :
    Midway g pending rebuilt (moveFacts (pending.factIds.take k) (g.cleared rebuilt)).2 := by
  obtain ⟨hjournal, hlog⟩ := moveFacts_keep (pending.factIds.take k) (g.cleared rebuilt)
  have hlast := (moveFacts_keep pending.factIds (g.cleared rebuilt)).2
  refine ⟨hjournal, moveFacts_glossary _ _, moveFacts_rest fun id hid => List.mem_of_mem_take hid,
    fun id hid => ?_, ?_, .inl hlog⟩
  · exact has_congr (moveFacts_other fun h => hid (List.mem_of_mem_take h)).2
  · rw [moveFacts_resume (loadPending_nodup hload) k, hlog, withLog_self hlast]

namespace Midway

theorem cleared_self (h : Midway g pending rebuilt g') : g'.cleared rebuilt = g' := by
  rw [Graph.cleared, ← h.glossary]

variable [Runtime]

theorem rebuilds (h : Midway g pending rebuilt g') :
    g'.activeGlossaryExcluding pending.factIds = g.activeGlossaryExcluding pending.factIds :=
  activeGlossary_congr h.rest h.revoked

/-- And so does the next run, wherever it is killed. -/
theorem next (h : Midway g pending rebuilt g') (hload : loadPending g.pendingRevocation = .ok (some pending))
    (hrebuilt : g.activeGlossaryExcluding pending.factIds = .ok rebuilt) (hlog : g.OneLined)
    (hk : Killed g' g'') : Midway g pending rebuilt g'' := by
  have hn := loadPending_nodup hload
  have hsame : ∀ {p r}, loadPending g'.pendingRevocation = .ok (some p) →
      g'.activeGlossaryExcluding p.factIds = .ok r → p = pending ∧ r = rebuilt := by
    intro p r hp hr
    rw [h.journal, hload] at hp
    cases hp
    rw [h.rebuilds, hrebuilt] at hr
    cases hr
    exact ⟨rfl, rfl⟩
  cases hk with
  | before => exact h
  | moving k hp hr =>
    obtain ⟨rfl, rfl⟩ := hsame hp hr
    rw [h.cleared_self]
    obtain ⟨hjournal, hkeep⟩ := moveFacts_keep (List.take k _) g'
    refine ⟨hjournal.trans h.journal, (moveFacts_glossary _ _).trans h.glossary,
      (moveFacts_rest fun id hid => List.mem_of_mem_take hid).trans h.rest, fun id hid => ?_, ?_, ?_⟩
    · exact (has_congr (moveFacts_other fun hm => hid (List.mem_of_mem_take hm)).2).trans (h.revoked id hid)
    · rw [moveFacts_resume hn k, hkeep]
      exact h.moves
    · rw [hkeep]
      exact h.log
  | @logged p r moved entries hp hr hmoves hread =>
    obtain ⟨rfl, rfl⟩ := hsame hp hr
    rw [h.cleared_self, h.moves] at hmoves
    obtain ⟨hok, rfl⟩ := Prod.mk.inj hmoves
    obtain ⟨hjournal, hkeep⟩ := moveFacts_keep p.factIds (g.cleared r)
    have hagain := moveFacts_resume hn p.factIds.length (g.cleared r)
    rw [List.take_length] at hagain
    refine ⟨hjournal, moveFacts_glossary p.factIds (g.cleared r), moveFacts_rest fun _ hid => hid,
      fun id hid => has_congr (moveFacts_other hid).2, ?_, .inr ⟨hok, ?_⟩⟩
    · rw [withLog_withLog, moveFacts_withLog, hagain]
      rfl
    · rcases h.log with he | ⟨_, entries', hread', he⟩
      · exact ⟨entries, he ▸ hread, rfl⟩
      · refine ⟨entries', hread', ?_⟩
        have hback := relogged hlog hload hread'
        rw [← he] at hback
        cases hback.symm.trans hread
        show some (Except.ok _) = some (Except.ok _)
        rw [revocationLogText_again]

end Midway

/-- A cascade that is taken up midway comes to the same end. -/
theorem resume_midway [Runtime] (h : Midway g pending rebuilt g')
    (hload : loadPending g.pendingRevocation = .ok (some pending))
    (hrebuilt : g.activeGlossaryExcluding pending.factIds = .ok rebuilt) (hlog : g.OneLined) :
    resumePending g' = resumePending g := by
  have hkeep := moveFacts_keep pending.factIds (g.cleared rebuilt)
  have hload' : loadPending g'.pendingRevocation = .ok (some pending) := by rw [h.journal, hload]
  cases hmoves : moveFacts pending.factIds (g.cleared rebuilt) with
  | mk r moved =>
    have hmoves' : moveFacts pending.factIds (g'.cleared rebuilt) = (r, moved.withLog g'.revocationLog) := by
      rw [h.cleared_self, h.moves, hmoves]
    rw [hmoves] at hkeep
    rw [Graph.cleared] at hmoves hmoves'
    simp only [resumePending, hload, hload', hrebuilt, h.rebuilds.trans hrebuilt, hmoves, hmoves']
    rcases h.log with he | ⟨hok, entries, hread, he⟩
    · rw [withLog_self (hkeep.2.trans he.symm)]
    · rw [Graph.cleared, hmoves] at hok
      cases hok
      have hback := relogged hlog hload hread
      rw [← he] at hback
      have hlast : readRevocationLogStrict moved.revocationLog = .ok entries := by rw [hkeep.2]; exact hread
      simp only [hlast, Graph.withLog, hback, revocationLogText_again]

/-- However often a cascade is killed and taken up, and wherever, it ends as if it had never been killed. -/
theorem killed_cascade_resumes [Runtime] (g : Graph) (hlog : g.OneLined)
    (h : Relation.ReflTransGen Killed g g') : resumePending g' = resumePending g := by
  have hmid : g' = g ∨ ∃ pending rebuilt, loadPending g.pendingRevocation = .ok (some pending) ∧
      g.activeGlossaryExcluding pending.factIds = .ok rebuilt ∧ Midway g pending rebuilt g' := by
    induction h with
    | refl => exact .inl rfl
    | tail _ hk ih =>
      rcases ih with rfl | ⟨pending, rebuilt, hload, hrebuilt, hmid⟩
      · cases hk with
        | before => exact .inl rfl
        | moving k hload hrebuilt => exact .inr ⟨_, _, hload, hrebuilt, midway_moving hload k⟩
        | @logged p r moved entries hload hrebuilt hmoves hread =>
          have hstart : Midway _ p r (moveFacts (p.factIds.take 0) (Graph.cleared _ r)).2 := midway_moving hload 0
          refine .inr ⟨p, r, hload, hrebuilt, hstart.next hload hrebuilt hlog ?_⟩
          exact .logged hload hrebuilt hmoves hread
      · exact .inr ⟨pending, rebuilt, hload, hrebuilt, hmid.next hload hrebuilt hlog hk⟩
  rcases hmid with rfl | ⟨pending, rebuilt, hload, hrebuilt, hmid⟩
  · rfl
  · exact resume_midway hmid hload hrebuilt hlog

end Kills

section Cascade
variable [Runtime] {g g' : Graph} {factId id : PyStr} {ids : List PyStr} {rebuilt r : List (PyStr × PyStr)}

/-- The rebuilt glossary has what the facts define, and nothing else. -/
theorem addFacts_mem (hread : ∀ id ∈ ids, g.getRaw id = .ok (some (g.textOf id))) (hr : Graph.Functional rebuilt)
    (h : ids.foldlM g.addFactTerms rebuilt = .ok r) :
    Graph.Functional r ∧ ∀ kv, kv ∈ r ↔ kv ∈ rebuilt ∨ ∃ id ∈ ids, kv ∈ g.terms id := by
  induction ids generalizing rebuilt with
  | nil =>
    cases h
    simpa using hr
  | cons id ids ih =>
    rw [List.forall_mem_cons] at hread
    rw [List.foldlM_cons, addFactTerms_eq hread.1] at h
    obtain ⟨r', hfirst, hrest⟩ := Checks.bind_ok.mp h
    obtain ⟨_, _, hfirst⟩ := Checks.bind_ok.mp hfirst
    have hterms := (Checks.unless_ok.mp hfirst).2
    obtain ⟨hr', hmem'⟩ := (addTerms_ok _ hr).2 r' hterms
    obtain ⟨hfun, hmem⟩ := ih hread.2 hr' hrest
    refine ⟨hfun, fun kv => ?_⟩
    rw [hmem, hmem', List.mem_append, (Json.sortByKey_perm _).mem_iff, or_assoc]
    simp only [List.mem_cons, exists_eq_or_imp]

omit [Runtime] in
theorem addTerms_keys {items rebuilt r : List (PyStr × PyStr)} (hn : (rebuilt.map Prod.fst).Nodup)
    (h : items.foldlM Graph.addTerm rebuilt = .ok r) : (r.map Prod.fst).Nodup := by
  induction items generalizing rebuilt with
  | nil =>
    rw [List.foldlM_nil, Checks.pure_ok] at h
    rwa [← h]
  | cons item items ih =>
    rw [List.foldlM_cons] at h
    obtain ⟨r', hr', h⟩ := Checks.bind_ok.mp h
    refine ih ?_ h
    rw [Graph.addTerm] at hr'
    split at hr'
    · split at hr'
      · cases hr'
      · cases hr'
        exact hn
    · next hnone =>
      cases hr'
      rw [List.map_append, List.map_singleton, List.nodup_append]
      refine ⟨hn, List.nodup_singleton _, fun a ha b hb he => ?_⟩
      obtain ⟨kv, hkv, rfl⟩ := List.mem_map.mp ha
      rw [List.mem_singleton.mp hb] at he
      have hno := List.lookup_eq_none_iff.mp hnone kv hkv
      simp [he] at hno

/-- The rebuilt glossary has each term once. -/
theorem addFacts_keys {ids : List PyStr} {rebuilt r : List (PyStr × PyStr)} (hn : (rebuilt.map Prod.fst).Nodup)
    (h : ids.foldlM g.addFactTerms rebuilt = .ok r) : (r.map Prod.fst).Nodup := by
  induction ids generalizing rebuilt with
  | nil =>
    rw [List.foldlM_nil, Checks.pure_ok] at h
    rwa [← h]
  | cons id ids ih =>
    rw [List.foldlM_cons] at h
    obtain ⟨r', hr', h⟩ := Checks.bind_ok.mp h
    refine ih ?_ h
    rw [Graph.addFactTerms] at hr'
    obtain ⟨raw, -, hr'⟩ := Checks.bind_ok.mp hr'
    cases raw with
    | none => exact (Checks.throw_ok.mp hr').elim
    | some raw =>
      obtain ⟨_, -, hr'⟩ := Checks.bind_ok.mp hr'
      exact addTerms_keys hn (Checks.unless_ok.mp hr').2

/-- What a revocation leaves: the fact and all that builds on it are moved with their texts, the others stay, pass
their check and build on none of them, the glossary has what the others define, and the log has all that went. -/
structure Revoked (g : Graph) (revocationId timestampUtc factId reason : PyStr) (ids : List PyStr) (g' : Graph) :
    Prop where
  root : ids.head? = some factId
  nodup : ids.Nodup
  cascade : ∀ id, id ∈ ids ↔ g.Cascades factId id
  active : ∀ id, g'.facts.files.lookup id = if id ∈ ids then none else g.facts.files.lookup id
  moved : ∀ id, g'.revoked.files.lookup id = if id ∈ ids then g.facts.files.lookup id else g.revoked.files.lookup id
  intact : ∀ id ∈ g'.list,
    validateFactIntegrity (g'.revoked.has id) id (g'.textOf id) (g'.frontmatter id) = .ok ()
  supported : ∀ id ∈ g'.list, ∀ p ∈ (g'.frontmatter id).predecessors, p ∉ ids
  glossary : ∃ rebuilt, g'.glossary = some (.ok (glossaryFile rebuilt)) ∧ (rebuilt.map Prod.fst).Nodup ∧
    ∀ kv, kv ∈ rebuilt ↔ ∃ id ∈ g'.list, kv ∈ g'.terms id
  log : ∃ entries, readRevocationLogStrict g.revocationLog = .ok entries ∧ g'.revocationLog =
    some (.ok (revocationLogText ⟨revocationId, timestampUtc, factId, reason, ids⟩ entries))
  closed : g'.pendingRevocation = none

/-- A cascade that is resumed to its end. -/
theorem resumePending_ends {pending p : Pending} (hload : loadPending g.pendingRevocation = .ok (some pending))
    (h : resumePending g = (.ok (some p), g')) : p = pending ∧ ∃ rebuilt moved entries,
      g.activeGlossaryExcluding pending.factIds = .ok rebuilt ∧
      moveFacts pending.factIds (g.cleared rebuilt) = (.ok (), moved) ∧
      readRevocationLogStrict g.revocationLog = .ok entries ∧
      g' = { moved with
        revocationLog := some (.ok (revocationLogText pending entries))
        pendingRevocation := none } := by
  rw [resumePending, hload] at h
  simp only at h
  split at h
  · cases h
  · next rebuilt hrebuilt =>
    have hkeep := (moveFacts_keep pending.factIds (g.cleared rebuilt)).2
    split at h
    · cases h
    · next moved hmoves =>
      rw [Graph.cleared, hmoves] at hkeep
      simp only at hkeep
      split at h
      · cases h
      · next entries hentries =>
        cases h
        exact ⟨rfl, rebuilt, moved, entries, hrebuilt, hmoves, hkeep ▸ hentries, rfl⟩

/-- What is read of a fact that stays. -/
theorem stays (hfacts : g'.facts.files.lookup id = g.facts.files.lookup id) :
    g'.getRaw id = g.getRaw id ∧ g'.textOf id = g.textOf id ∧ g'.frontmatter id = g.frontmatter id := by
  have hraw : g'.getRaw id = g.getRaw id := by rw [Graph.getRaw, Graph.getRaw, hfacts]
  have htext : g'.textOf id = g.textOf id := by rw [Graph.textOf, Graph.textOf, hraw]
  exact ⟨hraw, htext, by rw [Graph.frontmatter, Graph.frontmatter, htext]⟩

omit [Runtime] in
theorem mem_list_lookup : id ∈ g.list ↔ ∃ text, g.facts.files.lookup id = some text := by
  rw [mem_list, Directory.has, Option.isSome_iff_exists]

/-- What goes is active and has a safe name. -/
theorem cascades_active (hlisted : g.Listed) (hhas : g.has factId = true) (h : g.Cascades factId id) :
    g.facts.has id = true ∧ isSafeFactId id = true := by
  refine h.closed (P := fun id => g.facts.has id = true ∧ isSafeFactId id = true) ?_ ?_
  · intro a ha
    rw [Graph.has, Bool.and_eq_true] at hhas
    rw [List.mem_singleton.mp ha]
    exact hhas.symm
  · intro a _ p hp
    have hlist := (List.mem_filter.mp hp).1
    refine ⟨mem_list.mp hlist, ?_⟩
    have hraw := hlisted p hlist
    rw [Graph.getRaw] at hraw
    split at hraw
    · assumption
    · cases hraw

/-- The journal that a revocation writes is read back. -/
theorem loadPending_written (hlisted : g.Listed) (hhas : g.has factId = true)
    (hids : g.withDescendants factId = .ok ids) (revocationId timestampUtc reason : PyStr) :
    loadPending (some (.ok (journalText ⟨revocationId, timestampUtc, factId, reason, ids⟩))) =
      .ok (some ⟨revocationId, timestampUtc, factId, reason, ids⟩) := by
  obtain ⟨⟨more, rfl⟩, hn, hmem⟩ := withDescendants_ok hids
  exact loadPending_journal rfl hn fun id hid => (cascades_active hlisted hhas ((hmem id).mp hid)).2

/-- A revocation of an active fact that returns has moved the fact and all that builds on it, and nothing else. -/
theorem revoke_done (g : Graph) (hg : g.pendingRevocation = none) (hhas : g.has factId = true)
    (revocationId timestampUtc : PyStr) (reason : Reason)
    (h : revoke g revocationId timestampUtc factId reason = (.ok ids, g')) :
    ∃ text, reason = .text text ∧ g.Listed ∧ Revoked g revocationId timestampUtc factId text ids g' := by
  rw [revoke, resumePending_idle hg] at h
  cases reason with
  | other => cases h
  | unencodable message =>
    simp only [revokeUnlocked, hhas, not_true_eq_false, if_false] at h
    split at h <;> cases h
  | text text =>
    simp only [revokeUnlocked, hhas, not_true_eq_false, if_false] at h
    split at h
    · cases h
    · next toRevoke htoRevoke =>
      have hlisted := withDescendants_ok_iff.mp ⟨_, htoRevoke⟩
      have hload := loadPending_written hlisted hhas htoRevoke revocationId timestampUtc text
      set journalled : Graph := { g with
        pendingRevocation := some (.ok (journalText ⟨revocationId, timestampUtc, factId, text, toRevoke⟩)) }
      obtain ⟨⟨more, hmore⟩, hn, hmem⟩ := withDescendants_ok htoRevoke
      split at h
      · cases h
      · cases h
      · next p moved' hresume =>
        obtain ⟨rfl, rebuilt, moved, entries, hrebuilt, hmoves, hread, hleft⟩ := resumePending_ends hload hresume
        simp only at h
        cases h
        have hactive : ∀ id ∈ ids, (journalled.cleared rebuilt).facts.has id = true :=
          fun id hid => (cascades_active hlisted hhas ((hmem id).mp hid)).1
        have hwhere : ∀ id,
            g'.facts.files.lookup id = (if id ∈ ids then none else g.facts.files.lookup id) ∧
            g'.revoked.files.lookup id =
              if id ∈ ids then g.facts.files.lookup id else g.revoked.files.lookup id := by
          have hmoved := moveFacts_moves hn hactive hmoves
          rw [hleft]
          exact hmoved
        have hglossary : g'.glossary = some (.ok (glossaryFile rebuilt)) := by
          have hkeep := moveFacts_glossary ids (journalled.cleared rebuilt)
          rw [hmoves] at hkeep
          rw [hleft]
          exact hkeep
        -- the facts that stay are read as before
        have hstays : ∀ id ∉ ids, g'.facts.files.lookup id = g.facts.files.lookup id :=
          fun id hid => (hwhere id).1.trans (if_neg hid)
        have hkept : ∀ id, id ∈ g'.list ↔ id ∈ g.list ∧ id ∉ ids := by
          intro id
          rw [mem_list_lookup, mem_list_lookup]
          by_cases hid : id ∈ ids
          · rw [(hwhere id).1, if_pos hid]
            simp [hid]
          · rw [hstays id hid]
            simp [hid]
        have hfilter : ∀ id ∈ g.list.filter (· ∉ ids), g.getRaw id = .ok (some (g.textOf id)) :=
          fun id hid => hlisted id (List.mem_filter.mp hid).1
        have hempty : Graph.Functional [] := fun kv hkv => absurd hkv List.not_mem_nil
        have hterms := (addFacts_mem hfilter hempty hrebuilt).2
        have hvalid := ((addFacts_ok hfilter hempty).mp ⟨_, hrebuilt⟩).1
        have hin : ∀ id, id ∈ g.list.filter (· ∉ ids) ↔ id ∈ g'.list := by
          intro id
          rw [List.mem_filter, decide_eq_true_eq, hkept]
        refine ⟨text, rfl, hlisted, ?_⟩
        exact {
          root := by rw [hmore]; rfl
          nodup := hn
          cascade := hmem
          active := fun id => (hwhere id).1
          moved := fun id => (hwhere id).2
          intact := by
            intro id hid
            obtain ⟨_, hout⟩ := (hkept id).mp hid
            obtain ⟨_, htext, hfront⟩ := stays (hstays id hout)
            have hrevoked : g'.revoked.has id = g.revoked.has id :=
              has_congr ((hwhere id).2.trans (if_neg hout))
            have hsame := (hvalid id ((hin id).mpr hid)).1
            rw [← hrevoked, ← htext, ← hfront] at hsame
            exact hsame
          supported := by
            intro id hid p hp hgone
            obtain ⟨hlist, hout⟩ := (hkept id).mp hid
            have hfront : g'.frontmatter id = g.frontmatter id := (stays (hstays id hout)).2.2
            refine hout ((hmem id).mpr (.step ((hmem p).mp hgone) ?_))
            rw [Graph.dependents, List.mem_filter, decide_eq_true_eq, ← hfront]
            exact ⟨hlist, hp⟩
          glossary := by
            refine ⟨rebuilt, hglossary, addFacts_keys (by simp) hrebuilt, fun kv => ?_⟩
            rw [hterms]
            simp only [List.not_mem_nil, false_or]
            refine exists_congr fun id => ?_
            rw [hin]
            refine and_congr_right fun hid => ?_
            have hfront : g'.frontmatter id = g.frontmatter id := (stays (hstays id ((hkept id).mp hid).2)).2.2
            rw [Graph.terms, ← hfront]
            exact Iff.rfl
          log := ⟨entries, hread, congrArg Graph.revocationLog hleft⟩
          closed := congrArg Graph.pendingRevocation hleft }

section Again
variable {entries : List (List (PyStr × Json))} {pending : Pending}

omit [Runtime] in
/-- A list that has nothing old and nothing twice is new as it is. -/
theorem fresh_new {met ids : List PyStr} (hn : ids.Nodup) (hnew : ∀ id ∈ ids, id ∉ met) : fresh met ids = ids := by
  induction ids generalizing met with
  | nil => rfl
  | cons id ids ih =>
    obtain ⟨hout, hn⟩ := List.nodup_cons.mp hn
    rw [List.forall_mem_cons] at hnew
    rw [fresh, if_neg hnew.1, ih hn]
    intro other ho hmem
    rcases List.mem_append.mp hmem with hmem | hmem
    · exact hnew.2 other ho hmem
    · exact hout (List.mem_singleton.mp hmem ▸ ho)

omit [Runtime] in
/-- The log of a cascade names the cascade of its root. -/
theorem completed_logged (hhead : ∃ more, pending.factIds = pending.rootFactId :: more) (hn : pending.factIds.Nodup)
    (hroot : ∀ entry ∈ entries, entryId entry ≠ some pending.rootFactId)
    (hnew : ∀ entry ∈ entries, entry.lookup "revocation_id".toList ≠ some (.str pending.revocationId)) :
    completedRevocationIds (entries ++ pending.factIds.map (logEntry pending)) pending.rootFactId =
      pending.factIds := by
  obtain ⟨more, hmore⟩ := hhead
  have hout : pending.rootFactId ∉ more := by
    rw [hmore] at hn
    exact (List.nodup_cons.mp hn).1
  have hone : ∀ p : List (PyStr × Json) → Bool, (∀ entry ∈ entries, p entry = false) →
      p (logEntry pending pending.rootFactId) = true → (∀ id ∈ more, p (logEntry pending id) = false) →
      (entries ++ pending.factIds.map (logEntry pending)).filter p = [logEntry pending pending.rootFactId] := by
    intro p hold hfirst hmore'
    have hnil : (more.map (logEntry pending)).filter p = [] := by
      rw [List.filter_eq_nil_iff]
      intro entry he
      obtain ⟨id, hid, rfl⟩ := List.mem_map.mp he
      rw [hmore' id hid]
      exact Bool.false_ne_true
    have hnone : entries.filter p = [] := by
      rw [List.filter_eq_nil_iff]
      intro entry he
      rw [hold entry he]
      exact Bool.false_ne_true
    rw [List.filter_append, hnone, List.nil_append, hmore, List.map_cons, List.filter_cons_of_pos hfirst, hnil]
  have hnewest : ∀ p : List (PyStr × Json) → Bool, (∀ entry ∈ entries, p entry = false) →
      (∀ id, p (logEntry pending id) = true) →
      (entries ++ pending.factIds.map (logEntry pending)).filter p = pending.factIds.map (logEntry pending) := by
    intro p hold hall
    have hnone : entries.filter p = [] := by
      rw [List.filter_eq_nil_iff]
      intro entry he
      rw [hold entry he]
      exact Bool.false_ne_true
    rw [List.filter_append, hnone, List.nil_append, List.filter_eq_self]
    intro entry he
    obtain ⟨id, _, rfl⟩ := List.mem_map.mp he
    exact hall id
  have hid : (logEntry pending pending.rootFactId).lookup "revocation_id".toList = some (.str pending.revocationId) :=
    rfl
  rw [completedRevocationIds]
  simp only
  rw [hone]
  · simp only [List.getLast?_singleton, hid]
    rw [hnewest, filterMap_logEntry]
    · intro entry he
      split
      · next s hs =>
        rw [beq_eq_false_iff_ne]
        rintro rfl
        exact hnew entry he hs
      · rfl
    · intro id
      have hid' : (logEntry pending id).lookup "revocation_id".toList = some (.str pending.revocationId) := rfl
      rw [hid']
      exact beq_self_eq_true _
  · intro entry he
    rw [beq_eq_false_iff_ne.mpr (hroot entry he), Bool.false_and]
  · have hdepends : (logEntry pending pending.rootFactId).lookup "revoked_as_dependent_of".toList = some .null := by
      have h : (logEntry pending pending.rootFactId).lookup "revoked_as_dependent_of".toList =
          some (if pending.rootFactId ≠ pending.rootFactId then .str pending.rootFactId else .null) := rfl
      rw [h, if_neg (not_not.mpr rfl)]
    rw [entryId_logEntry, hdepends, beq_self_eq_true]
    rfl
  · intro id hid
    have hne : id ≠ pending.rootFactId := fun h => hout (h ▸ hid)
    rw [entryId_logEntry, beq_eq_false_iff_ne.mpr (fun h => hne (Option.some.inj h)), Bool.false_and]

/-- A revocation that is asked for again: the log names the same facts, and nothing changes. -/
theorem revoke_again (g : Graph) (hg : g.pendingRevocation = none) (hhas : g.has factId = true)
    (revocationId timestampUtc text : PyStr)
    (h : revoke g revocationId timestampUtc factId (.text text) = (.ok ids, g'))
    (hone : ∀ s ∈ [revocationId, timestampUtc, text], ∀ c ∈ s, isRawBreak c = false)
    (hlog : ∀ entries, readRevocationLogStrict g.revocationLog = .ok entries → ∀ entry ∈ entries,
      (Json.obj entry).OneLine ∧ entry.lookup "revocation_id".toList ≠ some (.str revocationId) ∧
      ∀ id ∈ ids, entryId entry ≠ some id)
    (revocationId' timestampUtc' text' : PyStr) :
    revoke g' revocationId' timestampUtc' factId (.text text') = (.ok ids, g') := by
  obtain ⟨_, hreason, hlisted, hdone⟩ := revoke_done g hg hhas revocationId timestampUtc (.text text) h
  cases hreason
  obtain ⟨more, hmore⟩ : ∃ more, ids = factId :: more := by
    cases ids with
    | nil => cases hdone.root
    | cons id more => exact ⟨more, by cases hdone.root; rfl⟩
  have hin : factId ∈ ids := by
    rw [hmore]
    exact List.mem_cons_self
  obtain ⟨hsafe, htext⟩ : isSafeFactId factId = true ∧ g.facts.has factId = true := by
    rwa [Graph.has, Bool.and_eq_true] at hhas
  have hgone : g'.has factId = false := by
    rw [Graph.has, Directory.has, hdone.active, if_pos hin]
    exact Bool.and_false _
  have hrevoked : g'.revoked.has factId = true := by
    rw [Directory.has, hdone.moved, if_pos hin]
    exact htext
  obtain ⟨entries, hread, hwritten⟩ := hdone.log
  let pending : Pending := ⟨revocationId, timestampUtc, factId, text, ids⟩
  have hfresh : fresh (entries.filterMap entryId) ids = ids := by
    refine fresh_new hdone.nodup fun id hid hmem => ?_
    obtain ⟨entry, he, hentry⟩ := List.mem_filterMap.mp hmem
    exact (hlog entries hread entry he).2.2 id hid hentry
  have hsafeIds : ∀ id ∈ ids, isSafeFactId id = true :=
    fun id hid => (cascades_active hlisted hhas ((hdone.cascade id).mp hid)).2
  have hback : readRevocationLogStrict g'.revocationLog = .ok (entries ++ ids.map (logEntry pending)) := by
    rw [hwritten, revocationLogText, hfresh]
    refine readLog_written (fun entry he => ?_) fun entry he => ?_
    · rcases List.mem_append.mp he with he | he
      · exact readLog_distinct hread entry he
      · obtain ⟨id, _, rfl⟩ := List.mem_map.mp he
        exact logEntry_distinct pending id
    · rcases List.mem_append.mp he with he | he
      · exact (hlog entries hread entry he).1
      · obtain ⟨id, hid, rfl⟩ := List.mem_map.mp he
        exact logEntry_oneLine hsafe (hsafeIds id hid) hone
  have hhead : ∃ more, pending.factIds = pending.rootFactId :: more := ⟨more, hmore⟩
  have hcompleted : completedRevocationIds (entries ++ ids.map (logEntry pending)) factId = ids :=
    completed_logged hhead hdone.nodup
      (fun entry he => (hlog entries hread entry he).2.2 factId hin) fun entry he => (hlog entries hread entry he).2.1
  have hnamed : revokeInactive g' factId = .ok ids := by
    simp only [revokeInactive, hsafe, hrevoked, hback, Except.map, hcompleted, if_true]
    exact if_pos (List.ne_nil_of_mem hin)
  rw [revoke, resumePending_idle hdone.closed]
  simp only [revokeUnlocked, hgone, Bool.false_eq_true, not_false_eq_true, if_true, hnamed]

end Again

end Cascade

theorem toOption_some {α : Type} {r : Except GraphError α} {a : α} (h : r.toOption = some a) : r = .ok a := by
  cases r with
  | error e => cases h
  | ok b =>
    cases h
    rfl

/-- The journal of the fact whose file does not name its own id. -/
def strandedJournal : Pending := ⟨"r".toList, "t".toList, "b".toList, "wrong".toList, ["b".toList]⟩

/-- The graph of two facts, with the journal of one of them. -/
def strandedGraph : Graph :=
  { misnamedGraph with pendingRevocation := some (.ok (journalText strandedJournal)) }

theorem strandedGraph_loads : loadPending strandedGraph.pendingRevocation = .ok (some strandedJournal) :=
  loadPending_journal rfl (by decide) (by decide)

theorem killed_cascade_resumes_moved :
    let _ : Runtime := asciiRuntime
    resumePending (moveFacts ["b".toList] (strandedGraph.cleared [])).2 = resumePending strandedGraph := by
  let _ : Runtime := asciiRuntime
  have hrebuilt : strandedGraph.activeGlossaryExcluding strandedJournal.factIds = .ok [] :=
    toOption_some (by decide +kernel)
  have hone : strandedGraph.OneLined := by
    refine ⟨fun pending h => ?_, fun entries h => ?_⟩
    · rw [strandedGraph_loads] at h
      cases h
      decide
    · cases h
      simp
  exact killed_cascade_resumes strandedGraph hone (.tail .refl (.moving 1 strandedGraph_loads hrebuilt))

theorem misnamedGraph_revokes :
    let _ : Runtime := asciiRuntime
    let outcome := revoke misnamedGraph "r".toList "t".toList "b".toList (.text "wrong".toList)
    outcome = (.ok ["b".toList], outcome.2) := by
  let _ : Runtime := asciiRuntime
  have hfirst : ∀ {x : Outcome (List PyStr)} {ids : List PyStr}, x.1 = .ok ids → x = (.ok ids, x.2) := by
    intro x ids h
    rw [← h]
  exact hfirst (toOption_some (by decide +kernel))

theorem revoke_again_misnamed :
    let _ : Runtime := asciiRuntime
    let g' := (revoke misnamedGraph "r".toList "t".toList "b".toList (.text "wrong".toList)).2
    revoke g' "s".toList "u".toList "b".toList (.text "again".toList) = (.ok ["b".toList], g') := by
  let _ : Runtime := asciiRuntime
  refine revoke_again misnamedGraph rfl (by decide) _ _ _ misnamedGraph_revokes (by decide) ?_ _ _ _
  intro entries h
  cases h
  simp

end Danus.FactGraph.Revocation
