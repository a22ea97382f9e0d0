import Danus.Core.Retrieval
import Danus.Observability.ChannelPages
import Danus.Observability.GraphPages

/-! The dashboard against the two stores: where it shows what they hold, and where it cannot. -/
namespace Danus.Observability
open Python Core FactGraph Chains

/-- `GlobalMemory.read_immutable` -/
def readImmutable (py : Interpreter) (bytes : List Nat) : Except GmError (List Json) :=
  let entries := channelEntries py bytes
  (entries.1.mapM (canonicalRecord py)).bind fun _ =>
    match entries.2 with
    | none => .ok entries.1
    | some e => .error e

/-- A project of these facts and this memory. -/
def projectOf (facts : List Fact) (memory : GlobalMemory) : Project where
  facts := facts.map pageOf
  channel name := ((Kind.ofName? name).map memory.channels).getD []

section Memory
variable {py : Interpreter} {m : GlobalMemory} {facts : List Fact}

theorem readImmutable_filled (h : m.Filled py) {kind : Kind} {entries : List Json}
    (hr : readImmutable py (m.channels kind) = .ok entries) :
    entries = kindRecords m.accepted kind ∧ ∀ r ∈ kindRecords m.accepted kind, Legible py r := by
  obtain ⟨hok, herr⟩ := channelEntries_filled h kind
  rw [readImmutable] at hr
  cases hm : (channelEntries py (m.channels kind)).1.mapM (canonicalRecord py) with
  | error e =>
    simp only [hm] at hr
    cases hr
  | ok us =>
    simp only [hm] at hr
    by_cases hl : ∀ r ∈ kindRecords m.accepted kind, Legible py r
    · simp only [hok hl] at hr
      cases hr
      exact ⟨rfl, hl⟩
    · push Not at hl
      obtain ⟨e, he⟩ := herr hl
      simp only [he] at hr
      cases hr

/-- The canonical bytes of a legible record. -/
theorem canonicalRecord_legible {r : Json} (hw : Writable py r) (hl : Legible py r) :
    canonicalRecord py r = .ok (r.preimage (Json.compact false true)) := by
  simp [canonicalRecord, Nat.not_lt.mpr hw.nesting, hl.numbers, Nat.not_lt.mpr hl.size]

theorem readImmutable_legible (h : m.Filled py) {kind : Kind}
    (hl : ∀ r ∈ kindRecords m.accepted kind, Legible py r) :
    readImmutable py (m.channels kind) = .ok (kindRecords m.accepted kind) := by
  have hw : ∀ r ∈ kindRecords m.accepted kind, Writable py r := by
    intro r hr
    obtain ⟨e, he, rfl⟩ := List.mem_map.mp hr
    exact h.writable e (List.mem_of_mem_filter he)
  have hmap : ∀ records : List Json, (∀ r ∈ records, Writable py r ∧ Legible py r) →
      ∃ us, records.mapM (canonicalRecord py) = .ok us := by
    intro records hall
    induction records with
    | nil => exact ⟨[], rfl⟩
    | cons r records ih =>
      obtain ⟨us, hus⟩ := ih fun r' hr => hall r' (List.mem_cons_of_mem _ hr)
      obtain ⟨hwr, hlr⟩ := hall r List.mem_cons_self
      refine ⟨r.preimage (Json.compact false true) :: us, ?_⟩
      rw [List.mapM_cons, canonicalRecord_legible hwr hlr, hus]
      rfl
  obtain ⟨us, hus⟩ := hmap _ fun r hr => ⟨hw r hr, hl r hr⟩
  simp only [readImmutable, (channelEntries_filled h kind).1 hl, hus]
  rfl

theorem acceptEntry_call {call : AppendCall} {ts : PyStr} {e : Entry}
    (h : acceptEntry py call ts = .ok e) : e.call = call := by
  unfold acceptEntry at h
  cases hk : Kind.ofName? call.kind with
  | none => simp [hk] at h
  | some kind =>
    simp only [hk, bind, Except.bind, pure, Except.pure, throw, throwThe, MonadExceptOf.throw] at h
    cases hv : validateAdvisorCheckpoint call.claim call.evidence call.links with
    | error reason =>
      simp only [hv] at h
      split_ifs at h
      cases h
      rfl
    | ok u =>
      simp only [hv] at h
      split_ifs at h <;> cases h <;> rfl

/-- What is accepted was called for. -/
theorem accepted_call (calls : List (AppendCall × PyStr)) :
    ∀ e ∈ (GlobalMemory.run py calls).accepted, ∃ c ∈ calls, e.call = c.1 := by
  unfold GlobalMemory.run
  refine List.foldlRecOn (motive := fun (m : GlobalMemory) => ∀ e ∈ m.accepted, ∃ c ∈ calls, e.call = c.1)
    calls _ (fun e he => by cases he) ?_
  intro m hm c hc e he
  cases ha : m.append py c.1 c.2 with
  | error err =>
    rw [ha] at he
    exact hm e he
  | ok r =>
    rw [ha] at he
    unfold GlobalMemory.append at ha
    cases hacc : acceptEntry py c.1 c.2 with
    | error err =>
      rw [hacc] at ha
      cases ha
    | ok entry =>
      rw [hacc] at ha
      cases ha
      rcases List.mem_append.mp he with he | he
      · exact hm e he
      · rw [List.mem_singleton.mp he]
        exact ⟨c, hc, acceptEntry_call hacc⟩

/-- `append` stamps an entry itself. -/
theorem stamped_record {e : Entry} (h : "timestamp_utc".toList ∉ e.call.extra.map Prod.fst) :
    Stamped e.record := by
  have hnone : e.call.extra.lookup "timestamp_utc".toList = none := by
    rw [List.lookup_eq_none_iff]
    intro kv hkv
    rw [bne_iff_ne]
    intro he
    exact h (he ▸ List.mem_map_of_mem hkv)
  refine ⟨e.ts, ?_⟩
  rw [Entry.record, entryRecord, Json.get?, Json.lookup_setItems e.call.extra_keys, hnone, Option.none_or]
  rfl

/-- The channel of a kind. -/
theorem buildChannel_run {calls : List (AppendCall × PyStr)}
    (hstamp : ∀ c ∈ calls, "timestamp_utc".toList ∉ c.1.extra.map Prod.fst) (kind : Kind)
    (hl : ∀ r ∈ kindRecords (GlobalMemory.run py calls).accepted kind, Legible py r) :
    (∃ shown, buildChannel kind.name (projectOf facts (GlobalMemory.run py calls)) = .ok shown ∧
        shown.Perm (kindRecords (GlobalMemory.run py calls).accepted kind)) ↔
      ∀ r ∈ kindRecords (GlobalMemory.run py calls).accepted kind, r.OneLine := by
  have hfill : (GlobalMemory.run py calls).Filled py := GlobalMemory.filled_run calls
  have hname : Kind.ofName? kind.name = some kind := by cases kind <;> rfl
  have hkind : kind.name ∈ channelKinds := by cases kind <;> decide
  have hfile : (projectOf facts (GlobalMemory.run py calls)).channel kind.name =
      (kindRecords (GlobalMemory.run py calls).accepted kind).flatMap entryLine := by
    rw [← hfill.channels kind]
    simp only [projectOf, hname, Option.map_some, Option.getD_some]
  have hw : ∀ r ∈ kindRecords (GlobalMemory.run py calls).accepted kind, Writable py r := by
    intro r hr
    obtain ⟨e, he, rfl⟩ := List.mem_map.mp hr
    exact hfill.writable e (List.mem_of_mem_filter he)
  refine buildChannel_exact hkind hfile hw (fun r hr => (hl r hr).keys) fun r hr => ?_
  obtain ⟨e, he, rfl⟩ := List.mem_map.mp hr
  obtain ⟨c, hc, hcall⟩ := accepted_call calls e (List.mem_of_mem_filter he)
  refine stamped_record ?_
  rw [hcall]
  exact hstamp c hc

end Memory

section Stores
variable [FactGraph.Runtime]

/-- The dashboard shows what the stores hold: the active facts with their edges and depths, and for every
kind the entries that `read_immutable` returns. -/
structure ShowsStores (py : Interpreter) (callDepth : Nat) (facts : List Fact) (memory : GlobalMemory) :
    Prop where
  graph : ∃ g, buildFactgraph callDepth (projectOf facts memory) = .ok g ∧ ShowsGraph facts g
  channels : ∀ kind entries, readImmutable py (memory.channels kind) = .ok entries →
    ∃ shown, buildChannel kind.name (projectOf facts memory) = .ok shown ∧ shown.Perm entries

/-- What the dashboard can show of the stores. -/
structure Showable (py : Interpreter) (facts : List Fact) (memory : GlobalMemory) : Prop where
  facts : Displayable facts
  channels : ∀ kind, (∀ r ∈ kindRecords memory.accepted kind, Legible py r) →
    ∀ r ∈ kindRecords memory.accepted kind, r.OneLine

variable {py : Interpreter} {facts : List Fact} {revoked : List PyStr}

/-- For facts that `add` wrote, whatever was revoked since, and findings that `append` wrote with its own
time: what the dashboard shows right is showable, and what is showable it shows right, where the
interpreter's stack holds a longest chain of predecessors. -/
theorem shows_stores (hkept : Kept facts revoked) {calls : List (AppendCall × PyStr)}
    (hstamp : ∀ c ∈ calls, "timestamp_utc".toList ∉ c.1.extra.map Prod.fst) (callDepth : Nat) :
    (ShowsStores py callDepth facts (GlobalMemory.run py calls) →
      Showable py facts (GlobalMemory.run py calls)) ∧
    (Showable py facts (GlobalMemory.run py calls) →
      (∀ a n, Chain (predecessorsOf facts) n a → n < callDepth) →
      ShowsStores py callDepth facts (GlobalMemory.run py calls)) := by
  have ho := hkept.ordered
  have hfill : (GlobalMemory.run py calls).Filled py := GlobalMemory.filled_run calls
  constructor
  · intro h
    obtain ⟨g, hbuild, hshows⟩ := h.graph
    refine ⟨displayable_of_shows rfl ho hbuild hshows, fun kind hl => ?_⟩
    exact (buildChannel_run hstamp kind hl).mp (h.channels kind _ (readImmutable_legible hfill hl))
  · intro h hfit
    refine ⟨buildFactgraph_shows rfl ho h.facts hfit, fun kind entries hr => ?_⟩
    obtain ⟨rfl, hl⟩ := readImmutable_filled hfill hr
    exact (buildChannel_run hstamp kind hl).mpr (h.channels kind hl)

end Stores

section Examples

/-- A fact with this proof and nothing else to say. -/
def factWith (proof : PyStr) : Fact where
  factId := computeFactId "p".toList [] [] "x = x".toList proof
  problemId := "p".toList
  author := "worker".toList
  predecessors := []
  statement := "x = x".toList
  proof := proof
  glossaryIntroduces := []
  intuition := []
  factIdentity := List.replicate 64 'a'
  externalRefs := []
  glossary_keys := List.nodup_nil

theorem kept_factWith (proof : PyStr) : Kept [factWith proof] [] := by
  have hguard : (factWith proof).Guarded := by
    have hidentity : isHexOf 64 (List.replicate 64 'a') = true := by decide
    refine ⟨?_, by rintro p ⟨⟩, rfl, hidentity⟩
    show checkFields "p".toList "worker".toList "x = x".toList [] [] = .ok ()
    decide
  exact Kept.empty.add hguard (by rintro ⟨⟩) (by rintro ⟨⟩) (by rintro p ⟨⟩)

theorem plan_oneLine :
    (Entry.mk .plan (planCall "on n".toList) "2026-01-01".toList).record.OneLine := by
  have hid : ∀ c ∈ (Entry.mk .plan (planCall "on n".toList) "2026-01-01".toList).id,
      isRawBreak c = false := fun c hc =>
    Json.not_isRawBreak_of_isPlain ((isHexOf_chars (isHexOf_entryId _ _ _ _)).2 c hc).1
  have hstrings : (Entry.mk .plan (planCall "on n".toList) "2026-01-01".toList).record.strings =
      ["id".toList, (Entry.mk .plan (planCall "on n".toList) "2026-01-01".toList).id] ++
        ["timestamp_utc".toList, "2026-01-01".toList, "author".toList, "worker".toList,
          "kind".toList, "plan".toList, "claim".toList, "try induction".toList, "evidence".toList,
          "on n".toList, "verifiable".toList, "status".toList, "open".toList, "fact_id".toList,
          "links".toList, "glossary".toList] := rfl
  intro s hs
  rw [hstrings, List.mem_append] at hs
  rcases hs with hs | hs
  · rcases List.mem_cons.mp hs with rfl | hs
    · decide
    · rw [List.mem_singleton.mp hs]
      exact hid
  · revert s
    decide

/-- A project that is shown: one fact of two lines and one finding. -/
theorem shows_stores_plain : Kept [factWith "by\nrfl".toList] [] ∧
    @ShowsStores asciiRuntime ⟨1000, 1000⟩ 1 [factWith "by\nrfl".toList]
      (GlobalMemory.run ⟨1000, 1000⟩ [(planCall "on n".toList, "2026-01-01".toList)]) := by
  have hkept := kept_factWith "by\nrfl".toList
  refine ⟨hkept, ((@shows_stores asciiRuntime _ _ _ hkept
    [(planCall "on n".toList, "2026-01-01".toList)] (by simp [planCall]) 1).2 ?_ ?_)⟩
  · refine @Showable.mk asciiRuntime _ _ _ ?_ ?_
    · have hone : ∀ {P : Fact → Prop}, P (factWith "by\nrfl".toList) →
          ∀ f ∈ [factWith "by\nrfl".toList], P f := by
        intro P h f hf
        rwa [List.mem_singleton.mp hf]
      refine @Displayable.mk asciiRuntime _ (hone ?_) (hone ?_) (hone ?_) (hone ?_)
      · unfold Bracketed factWith
        decide
      · unfold Bracketed factWith
        decide
      · intro s
        cases s <;> unfold PlainText textOf factWith <;> decide
      · rintro p ⟨⟩
    · intro kind _ r hr
      obtain ⟨e, he, rfl⟩ := List.mem_map.mp hr
      have hentry := List.mem_singleton.mp (List.mem_of_mem_filter he :
        e ∈ [⟨.plan, planCall "on n".toList, "2026-01-01".toList⟩])
      rw [hentry]
      exact plan_oneLine
  · intro a n hc
    cases hc with
    | leaf => exact Nat.one_pos
    | step hp _ =>
      obtain ⟨f, hf, _, hpf⟩ := mem_predecessorsOf.mp hp
      rw [List.mem_singleton.mp hf] at hpf
      cases hpf

/-- A heading in a proof ends it for the dashboard. -/
theorem heading_ends_proof : Kept [factWith "## Proof of the base case\nby rfl".toList] [] ∧
    ¬ @ShowsStores asciiRuntime ⟨1000, 1000⟩ 1000 [factWith "## Proof of the base case\nby rfl".toList]
      GlobalMemory.empty := by
  have hkept := kept_factWith "## Proof of the base case\nby rfl".toList
  refine ⟨hkept, fun h => ?_⟩
  obtain ⟨g, hbuild, hshows⟩ := @ShowsStores.graph asciiRuntime _ _ _ _ h
  have hd := @displayable_of_shows asciiRuntime _ _ _ rfl hkept.ordered _ _ hbuild hshows
  have hline := (@Displayable.texts asciiRuntime _ hd _ (List.mem_singleton_self _) .proof).1 "## Proof of the base case".toList
    (by decide)
  revert hline
  decide

end Examples
end Danus.Observability
