import Danus.Strategy.AdvisorEvidence
import Danus.Strategy.MemoryScan

/-! Raw browser output and global memory: completions and appends under the project's fence, beside the
other transactions of any brokers. -/
namespace Danus.Strategy
open Python Machines Core Checks

/-- The reply digests that `reject_raw_project_text_locked` selects. -/
def Ledger.replies (l : Ledger) : List PyStr := l.requests.filterMap Request.replySha256

theorem mem_replies {l : Ledger} {digest : PyStr} :
    digest ∈ l.replies ↔ ∃ row ∈ l.requests, row.replySha256 = some digest := List.mem_filterMap

section Publication

/-- An append, with the provenance that `gm_add` has cleaned where it is a browser's. -/
structure Publication extends GatewayAppend where
  provenance : Option Provenance
  adopted : ∀ b, seam = .gmAdd b → b = provenance.isSome

/-- What an append has to pass under the fence, up to the append itself. -/
inductive PublicationRefusal where
  | guidance (reason : Refusal)
  | append (reason : AppendRefusal)

/-- The check of guidance that comes from a browser. -/
def Publication.checkGuidance (l : Ledger) (g : Publication) : Except Refusal Unit :=
  match g.seam, g.provenance with
  | .gmAdd true, some provenance => validateAdoptedMasterGuidance l provenance g.call.evidence
  | _, _ => .ok ()

/-- The checks, with the reply digests that the ledger holds. -/
def Publication.check (l : Ledger) (g : Publication) : Except PublicationRefusal Unit :=
  match g.checkGuidance l with
  | .error reason => .error (.guidance reason)
  | .ok _ =>
    match rejectRawProjectTextLocked l.replies g.fields with
    | .error reason => .error (.append reason)
    | .ok _ => .ok ()

/-- The texts of a call: its text fields, and the keys and texts anywhere inside its links, its glossary
and the values of its extra fields. The names of the extra fields are the gateway's own. -/
def callTexts (call : AppendCall) : List PyStr :=
  [call.kind, call.claim, call.evidence, call.author] ++ scanTexts (ofDict? call.links) ++
    scanTexts (ofDict? call.glossary) ++ call.extra.flatMap fun kv => scanTexts kv.2

end Publication

/-- What the holder of the fence has checked and is about to commit. -/
inductive Holder where
  | finishing (requestId : PyStr) (target : Finish) (a : Attestation)
  | appending (g : Publication)

/-- A project's ledger and global memory, and the holder of its fence. -/
structure Project where
  advisor : Advisor
  memory : GlobalMemory
  fence : Option Holder

/-- The transaction of a completion, which is made under the fence. -/
def Event.finishes : Event → Bool
  | .operate _ _ (.finish ..) => true
  | _ => false

inductive ProjectEvent where
  | broker (event : Event) (outside : event.finishes = false)
  | scan (requestId : PyStr) (target : Finish) (a : Attestation)
  | check (g : Publication)
  | commit (now : Nat)
  | die

namespace Project

/-- A completion takes the fence and scans; it releases the fence where the scan raises. -/
def scan (py : Interpreter) (w : Project) (requestId : PyStr) (target : Finish) (a : Attestation) : Project :=
  match w.fence, assertDigestAbsentFromGlobalMemory py w.memory.channels (sha256Text a.response) with
  | none, .ok _ => { w with fence := some (.finishing requestId target a) }
  | _, _ => w

/-- An append takes the fence and checks its fields. -/
def check (w : Project) (g : Publication) : Project :=
  match w.fence, g.check w.advisor.ledger with
  | none, .ok _ => { w with fence := some (.appending g) }
  | _, _ => w

/-- The holder of the fence commits, and releases it. -/
def commit [Patterns] (py : Interpreter) (w : Project) (now : Nat) : Project :=
  match w.fence with
  | none => w
  | some (.finishing requestId target a) =>
    { w with advisor := w.advisor.step (.operate requestId now (.finish target a (.ok ()))), fence := none }
  | some (.appending g) =>
    match w.memory.append py g.call g.ts with
    | .error _ => { w with fence := none }
    | .ok r => { w with memory := r.2, fence := none }

def step [Patterns] (py : Interpreter) (w : Project) : ProjectEvent → Project
  | .broker event _ => { w with advisor := w.advisor.step event }
  | .scan requestId target a => w.scan py requestId target a
  | .check g => w.check g
  | .commit now => w.commit py now
  -- the fence is a lock of the system's, which dies with its holder
  | .die => { w with fence := none }

def initial (projectDir : PyStr) : Project := ⟨.initial projectDir, .empty, none⟩

def machine [Patterns] (py : Interpreter) (projectDir : PyStr) : Machine Project ProjectEvent where
  start w := w = initial projectDir
  step w event w' := w' = w.step py event

end Project

section Texts
variable {py : Interpreter}

theorem mem_scanTextsFields {s : PyStr} (kvs : List (PyStr × Json)) :
    s ∈ scanTextsFields kvs ↔ ∃ kv ∈ kvs, s = kv.1 ∨ s ∈ scanTexts kv.2 := by
  induction kvs with
  | nil => simp [scanTextsFields]
  | cons kv kvs ih =>
    obtain ⟨k, v⟩ := kv
    rw [scanTextsFields, List.cons_append, List.mem_cons, List.mem_append, ih]
    simp [or_assoc]

/-- The texts under a key are texts of the record. -/
theorem scanTexts_get {record v : Json} {key s : PyStr} (h : record.get? key = some v)
    (hs : s ∈ scanTexts v) : s ∈ scanTexts record := by
  cases record with
  | obj items =>
    rw [scanTexts, mem_scanTextsFields]
    exact ⟨(key, v), mem_of_lookup_eq_some h, .inr hs⟩
  | _ => cases h

/-- `**extra` does not replace a parameter. -/
theorem extra_lookup_none {call : AppendCall} {key : PyStr} (hk : key ∈ appendParameters) :
    call.extra.lookup key = none := by
  cases hl : call.extra.lookup key with
  | none => rfl
  | some v => exact (call.extra_names _ (mem_of_lookup_eq_some hl) hk).elim

theorem scanTexts_ofDict {dict : Option (List (PyStr × Json))} {s : PyStr}
    (hs : s ∈ scanTexts (ofDict? dict)) : s ∈ scanTexts (.obj (dict.getD [])) := by
  cases dict with
  | none => simp [ofDict?, scanTexts] at hs
  | some items => exact hs

/-- Every text of a call is in its record. -/
theorem texts_subset (e : Entry) {s : PyStr} (hs : s ∈ callTexts e.call) : s ∈ scanTexts e.record := by
  have hstored : ∀ key v, key ∈ appendParameters → e.record.get? key =
      ((e.call.extra.lookup key).or (some v)) → s ∈ scanTexts v → s ∈ scanTexts e.record := by
    intro key v hk hget hv
    rw [extra_lookup_none hk, Option.none_or] at hget
    exact scanTexts_get hget hv
  rw [callTexts, List.mem_append, List.mem_append, List.mem_append] at hs
  rcases hs with ((hs | hs) | hs) | hs
  · simp only [List.mem_cons, List.not_mem_nil, or_false] at hs
    rcases hs with rfl | rfl | rfl | rfl
    · exact hstored "kind".toList _ (by decide) (e.record_get _) (by simp [scanTexts])
    · exact hstored "claim".toList _ (by decide) (e.record_get _) (by simp [scanTexts])
    · exact hstored "evidence".toList _ (by decide) (e.record_get _) (by simp [scanTexts])
    · exact hstored "author".toList _ (by decide) (e.record_get _) (by simp [scanTexts])
  · exact hstored "links".toList _ (by decide) (e.record_get _) (scanTexts_ofDict hs)
  · exact hstored "glossary".toList _ (by decide) (e.record_get _) (scanTexts_ofDict hs)
  · obtain ⟨kv, hkv, hs⟩ := List.mem_flatMap.mp hs
    have hget : e.record.get? kv.1 = some kv.2 := by
      rw [e.record_get, lookup_eq_some_of_nodup e.call.extra_keys hkv, Option.some_or]
    exact scanTexts_get hget hs

theorem collectAll_walked (fields : List (PyStr × Json)) (c c' : Collected)
    (h : collectAll fields c = .ok c') :
    ∃ n, Walked c c' n (fields.flatMap fun f => scanTexts f.2) := by
  induction fields generalizing c with
  | nil =>
    cases h
    exact ⟨0, Walked.refl _⟩
  | cons f fields ih =>
    obtain ⟨d, hv, hrest⟩ := bind_ok h
    obtain ⟨n, hw⟩ := ih d hrest
    rw [List.flatMap_cons]
    exact ⟨_, (collect_walked f.2 f.1 0 c d hv).1.trans hw⟩

/-- No text of the fields that pass is a reply. -/
theorem rejectRaw_texts {stored : List PyStr} {fields : List (PyStr × Json)}
    (h : rejectRawProjectTextLocked stored fields = .ok ()) {f : PyStr × Json} (hf : f ∈ fields) {s : PyStr}
    (hs : s ∈ scanTexts f.2) : sha256Text s ∉ stored := by
  unfold rejectRawProjectTextLocked durableStringDigests at h
  cases hc : collectAll fields ⟨0, []⟩ with
  | error reason => simp [hc, Except.map] at h
  | ok c =>
    obtain ⟨n, hw⟩ := collectAll_walked fields _ c hc
    have hmem : sha256Text s ∈ c.digests := by
      rw [hw.digests]
      refine List.mem_append_right _ (List.mem_map.mpr ⟨s, ?_, rfl⟩)
      exact List.mem_flatMap.mpr ⟨f, hf, hs⟩
    obtain ⟨d, hd, he⟩ := List.mem_map.mp hmem
    intro hstored
    simp only [hc, Except.map] at h
    split_ifs at h with hlabels
    rw [List.map_eq_nil_iff, List.filter_eq_nil_iff] at hlabels
    exact hlabels d hd (by simpa [he] using hstored)

/-- What passes the scan is no text of a record. -/
theorem absent_of_scan {m : GlobalMemory} (hm : GatewayFilled py m) {reply : PyStr}
    (h : assertDigestAbsentFromGlobalMemory py m.channels (sha256Text reply) = .ok ()) :
    ∀ e ∈ m.accepted, sha256Text reply ∉ scanDigests e.record := by
  obtain ⟨hok, herr⟩ := scanChannels_memory hm (sha256Text reply)
  rw [assertDigestAbsentFromGlobalMemory, validateHash, if_pos (isSha256_sha256Text _)] at h
  by_cases hall : ∀ e ∈ m.accepted, Scannable py e.record
  · intro e he hd
    rw [hok hall, if_pos ⟨e, he, hd⟩] at h
    cases h
  · obtain ⟨error, he⟩ := herr (by simpa using hall)
    rw [he] at h
    cases h

end Texts

/-- The digests of adopted strategies are those of their texts, and no reply has one of them. -/
structure Ledger.Apart (l : Ledger) : Prop where
  adopted : ∀ row ∈ l.requests, ∀ strategy, row.adoptedStrategy = some strategy →
    row.adoptedStrategySha256 = some (sha256Text strategy)
  apart : ∀ row ∈ l.requests, ∀ digest, row.adoptedStrategySha256 = some digest → digest ∉ l.replies

section Ledger
variable {l l' : Ledger} {old new : Request} {op : Operation} {requestId : PyStr}

theorem Ledger.Apart.of_requests (h : l.Apart) (he : l'.requests = l.requests) : l'.Apart := by
  have hreplies : l'.replies = l.replies := congrArg (List.filterMap _) he
  exact ⟨he ▸ h.adopted, fun row hrow digest hd => hreplies ▸ h.apart row (he ▸ hrow) digest hd⟩

/-- What an operation does to the recorded texts of its row: nothing, a reply that is no adopted
strategy, or a strategy that is no reply. -/
theorem Ledger.Writes.texts (h : l.Writes old op new) :
    (new.replySha256 = old.replySha256 ∧ new.adoptedStrategy = old.adoptedStrategy ∧
      new.adoptedStrategySha256 = old.adoptedStrategySha256) ∨
    (∃ target a, op = .finish target a (.ok ()) ∧ new.replySha256 = some (sha256Text a.response) ∧
      new.adoptedStrategy = old.adoptedStrategy ∧
      new.adoptedStrategySha256 = old.adoptedStrategySha256 ∧
      ∀ other ∈ l.requests, other.adoptedStrategySha256 ≠ some (sha256Text a.response)) ∨
    ∃ strategy, new.replySha256 = old.replySha256 ∧ new.adoptedStrategy = some strategy ∧
      new.adoptedStrategySha256 = some (sha256Text strategy) ∧ sha256Text strategy ∉ l.replies := by
  cases h with
  | @finish target a absent signals now habsent _ hnew _ _ =>
    subst habsent
    exact .inr (.inl ⟨target, a, rfl, rfl, rfl, rfl, hnew⟩)
  | @adopt strategy acknowledged now _ hnew _ =>
    refine .inr (.inr ⟨strategy, rfl, rfl, rfl, fun hd => ?_⟩)
    obtain ⟨row, hrow, he⟩ := mem_replies.mp hd
    exact hnew row hrow he
  | _ => exact .inl ⟨rfl, rfl, rfl⟩

/-- The rows of a ledger whose row was rewritten. -/
theorem Ledger.Rewrites.rows (h : l.Rewrites requestId op l') : ∃ old ∈ l.requests, ∃ new,
    l.Writes old op new ∧ ∀ row ∈ l'.requests, row = new ∨ row ∈ l.requests := by
  obtain ⟨old, new, hold, hw, he⟩ := h
  refine ⟨old, (getInTx_mem hold).1, new, hw, fun row hrow => ?_⟩
  rw [he] at hrow
  exact (Rows.mem_set_cases hrow).imp id And.left

theorem Ledger.Rewrites.apart (h : l.Rewrites requestId op l') (ha : l.Apart) : l'.Apart ∧
    ∀ digest ∈ l'.replies, digest ∈ l.replies ∨
      ∃ target a, op = .finish target a (.ok ()) ∧ digest = sha256Text a.response := by
  obtain ⟨old, hold, new, hw, hrows⟩ := h.rows
  have hreply : old.replySha256 = new.replySha256 → ∀ digest ∈ l'.replies, digest ∈ l.replies := by
    intro hsame digest hd
    obtain ⟨row, hrow, he⟩ := mem_replies.mp hd
    rcases hrows row hrow with rfl | hrow
    · exact mem_replies.mpr ⟨old, hold, hsame.trans he⟩
    · exact mem_replies.mpr ⟨row, hrow, he⟩
  rcases hw.texts with ⟨hr, ht, hs⟩ | ⟨target, a, hop, hr, ht, hs, hfree⟩ | ⟨strategy, hr, ht, hs, hfree⟩
  · refine ⟨⟨fun row hrow s he => ?_, fun row hrow digest he hd => ?_⟩, fun digest hd =>
      .inl (hreply hr.symm digest hd)⟩
    · rcases hrows row hrow with rfl | hrow
      · exact hs.trans (ha.adopted old hold s (ht.symm.trans he))
      · exact ha.adopted row hrow s he
    · have hd := hreply hr.symm digest hd
      rcases hrows row hrow with rfl | hrow
      · exact ha.apart old hold digest (hs.symm.trans he) hd
      · exact ha.apart row hrow digest he hd
  · -- a reply was recorded
    have hnew : ∀ digest ∈ l'.replies, digest ∈ l.replies ∨ digest = sha256Text a.response := by
      intro digest hd
      obtain ⟨row, hrow, he⟩ := mem_replies.mp hd
      rcases hrows row hrow with rfl | hrow
      · exact .inr (Option.some.inj (he.symm.trans hr))
      · exact .inl (mem_replies.mpr ⟨row, hrow, he⟩)
    refine ⟨⟨fun row hrow s he => ?_, fun row hrow digest he hd => ?_⟩, fun digest hd =>
      (hnew digest hd).imp id fun he => ⟨target, a, hop, he⟩⟩
    · rcases hrows row hrow with rfl | hrow
      · exact hs.trans (ha.adopted old hold s (ht.symm.trans he))
      · exact ha.adopted row hrow s he
    · obtain ⟨first, hfirst, he⟩ : ∃ first ∈ l.requests, first.adoptedStrategySha256 = some digest := by
        rcases hrows row hrow with rfl | hrow
        · exact ⟨old, hold, hs.symm.trans he⟩
        · exact ⟨row, hrow, he⟩
      rcases hnew digest hd with hd | rfl
      · exact ha.apart first hfirst digest he hd
      · exact hfree first hfirst he
  · -- a strategy was adopted
    refine ⟨⟨fun row hrow s he => ?_, fun row hrow digest he hd => ?_⟩, fun digest hd =>
      .inl (hreply hr.symm digest hd)⟩
    · rcases hrows row hrow with rfl | hrow
      · rw [hs, Option.some.inj (ht.symm.trans he)]
      · exact ha.adopted row hrow s he
    · have hd := hreply hr.symm digest hd
      rcases hrows row hrow with rfl | hrow
      · rw [← Option.some.inj (hs.symm.trans he)] at hd
        exact hfree hd
      · exact ha.apart row hrow digest he hd

/-- No transaction of a broker brings a reply and an adopted strategy together, and only a completion
records a reply. -/
theorem Advisor.step_apart [Patterns] {s : Advisor} (hs : s.Safe) (ha : s.ledger.Apart) (event : Event) :
    (s.step event).ledger.Apart ∧ ∀ digest ∈ (s.step event).ledger.replies, digest ∈ s.ledger.replies ∨
      ∃ requestId now target a, event = .operate requestId now (.finish target a (.ok ())) ∧
        digest = sha256Text a.response := by
  rcases Advisor.step_changes hs event with he | ⟨a, authority, requestId, now, row, _, hi, he⟩ |
    ⟨requestId, op, ho, hw⟩
  · refine ⟨ha.of_requests he, fun digest hd => .inl ?_⟩
    rwa [Ledger.replies, he] at hd
  · obtain ⟨checkpoint, lineage, id, n, _, rfl⟩ := hi.made
    have hreplies : (s.step event).ledger.replies = s.ledger.replies := by
      rw [Ledger.replies, he, List.filterMap_append]
      exact List.append_nil _
    refine ⟨⟨fun row hrow strategy hr => ?_, fun row hrow digest hr => ?_⟩, fun digest hd =>
      .inl (hreplies ▸ hd)⟩
    · rw [he] at hrow
      rcases List.mem_append.mp hrow with hrow | hrow
      · exact ha.adopted row hrow strategy hr
      · rw [List.mem_singleton.mp hrow] at hr
        cases hr
    · rw [hreplies]
      rw [he] at hrow
      rcases List.mem_append.mp hrow with hrow | hrow
      · exact ha.apart row hrow digest hr
      · rw [List.mem_singleton.mp hrow] at hr
        cases hr
  · obtain ⟨hapart, hreplies⟩ := hw.apart ha
    refine ⟨hapart, fun digest hd => (hreplies digest hd).imp id ?_⟩
    rintro ⟨target, a, rfl, he⟩
    cases ho with
    | operate => exact ⟨requestId, _, target, a, rfl, he⟩

end Ledger

/-- What every run keeps: the texts of global memory and the replies stay apart, also from what the
holder of the fence has checked. -/
structure Project.Apart (py : Interpreter) (w : Project) : Prop where
  safe : w.advisor.Safe
  ledger : w.advisor.ledger.Apart
  filled : GatewayFilled py w.memory
  texts : ∀ e ∈ w.memory.accepted, ∀ s ∈ callTexts e.call, sha256Text s ∉ w.advisor.ledger.replies
  finishing : ∀ requestId target a, w.fence = some (.finishing requestId target a) →
    ∀ e ∈ w.memory.accepted, sha256Text a.response ∉ scanDigests e.record
  appending : ∀ g, w.fence = some (.appending g) →
    ∀ s ∈ callTexts g.call, sha256Text s ∉ w.advisor.ledger.replies

section Runs
variable [Patterns] {py : Interpreter} {projectDir : PyStr} {w : Project}

theorem Advisor.Safe.next {s : Advisor} (hs : s.Safe) (event : Event) : (s.step event).Safe := by
  rcases Advisor.step_cases hs event with he | ⟨l', clicked, hstep, he⟩
  · rw [he]
    exact hs
  · rw [he]
    exact hs.step hstep

omit [Patterns] in
/-- Guidance that passes is the strategy of an adopted request. -/
theorem validate_adopted_row {l : Ledger} {provenance : Provenance} {evidence : PyStr}
    (h : validateAdoptedMasterGuidance l provenance evidence = .ok ()) :
    ∃ row ∈ l.requests, row.adoptedStrategySha256 = some (sha256Text evidence) := by
  unfold validateAdoptedMasterGuidance at h
  simp only [↓Checks.bind_ok, ↓unless_ok] at h
  obtain ⟨_, _, _, h⟩ := h
  cases hf : l.requests.find? fun row => row.requestId = provenance.requestId with
  | none =>
    rw [hf] at h
    cases h
  | some row =>
    rw [hf] at h
    simp only [↓unless_ok, unless_throw_ok] at h
    obtain ⟨_, _, _, he, _⟩ := h
    exact ⟨row, List.mem_of_find?_eq_some hf, (Decidable.not_not.mp he).symm⟩

omit [Patterns] in
/-- Every text of a call is checked, or is the evidence of guidance that comes from a browser. -/
theorem GatewayAppend.fields_texts (g : GatewayAppend) {s : PyStr} (hs : s ∈ callTexts g.call) :
    (∃ f ∈ g.fields, s ∈ scanTexts f.2) ∨ (g.seam = .gmAdd true ∧ s = g.call.evidence) := by
  have hextra : ∀ f ∈ g.call.extra, f ∈ g.fields := by
    intro f hf
    unfold GatewayAppend.fields
    cases g.seam with
    | gmAdd adopted =>
      cases adopted with
      | true => exact List.mem_append_right _ hf
      | false => exact List.mem_append_left _ (List.mem_append_right _ hf)
    | guarded => exact List.mem_append_right _ hf
  have hnamed : ∀ f ∈ [("kind".toList, Json.str g.call.kind), ("claim".toList, .str g.call.claim),
      ("glossary".toList, ofDict? g.call.glossary), ("links".toList, ofDict? g.call.links),
      ("author".toList, .str g.call.author)], f ∈ g.fields := by
    intro f hf
    unfold GatewayAppend.fields
    cases g.seam with
    | gmAdd adopted =>
      cases adopted with
      | true => exact List.mem_append_left _ hf
      | false => exact List.mem_append_left _ (List.mem_append_left _ hf)
    | guarded =>
      simp only [List.mem_cons, List.not_mem_nil, or_false] at hf
      rcases hf with rfl | rfl | rfl | rfl | rfl <;>
        simp only [List.mem_append, List.mem_cons, true_or, or_true]
  have hevidence : g.seam ≠ .gmAdd true → ("evidence".toList, Json.str g.call.evidence) ∈ g.fields := by
    intro hne
    unfold GatewayAppend.fields
    cases hseam : g.seam with
    | gmAdd adopted =>
      cases adopted with
      | true => exact (hne hseam).elim
      | false => exact List.mem_append_right _ (List.mem_singleton_self _)
    | guarded => simp only [List.mem_append, List.mem_cons, true_or, or_true]
  simp only [List.forall_mem_cons] at hnamed
  obtain ⟨hkind, hclaim, hglossary, hlinks, hauthor, -⟩ := hnamed
  have hself : ∀ t : PyStr, t ∈ scanTexts (.str t) := by
    intro t
    rw [scanTexts]
    exact List.mem_singleton_self t
  rw [callTexts, List.mem_append, List.mem_append, List.mem_append] at hs
  rcases hs with ((hs | hs) | hs) | hs
  · simp only [List.mem_cons, List.not_mem_nil, or_false] at hs
    rcases hs with rfl | rfl | rfl | rfl
    · exact .inl ⟨_, hkind, hself _⟩
    · exact .inl ⟨_, hclaim, hself _⟩
    · by_cases hseam : g.seam = .gmAdd true
      · exact .inr ⟨hseam, rfl⟩
      · exact .inl ⟨_, hevidence hseam, hself _⟩
    · exact .inl ⟨_, hauthor, hself _⟩
  · exact .inl ⟨_, hlinks, hs⟩
  · exact .inl ⟨_, hglossary, hs⟩
  · obtain ⟨kv, hkv, hs⟩ := List.mem_flatMap.mp hs
    exact .inl ⟨kv, hextra kv hkv, hs⟩

omit [Patterns] in
/-- A publication that passes the check has no reply among its texts. -/
theorem Publication.check_texts {l : Ledger} {g : Publication} (hl : l.Apart) (h : g.check l = .ok ()) :
    ∀ s ∈ callTexts g.call, sha256Text s ∉ l.replies := by
  unfold Publication.check at h
  cases hg : g.checkGuidance l with
  | error reason => simp [hg] at h
  | ok u =>
    cases hraw : rejectRawProjectTextLocked l.replies g.fields with
    | error reason => simp [hg, hraw] at h
    | ok v =>
      intro s hs
      rcases g.fields_texts hs with ⟨f, hf, hs⟩ | ⟨hseam, rfl⟩
      · exact rejectRaw_texts hraw hf hs
      · -- the evidence is an adopted strategy, which no reply is
        have hbacked := g.adopted true hseam
        cases hp : g.provenance with
        | none => simp [hp] at hbacked
        | some provenance =>
          simp only [Publication.checkGuidance, hseam, hp] at hg
          obtain ⟨row, hrow, he⟩ := validate_adopted_row hg
          exact hl.apart row hrow _ he

omit [Patterns] in
/-- Nobody holds the fence. -/
theorem Project.Apart.released {s : Advisor} {m : GlobalMemory} (safe : s.Safe) (ledger : s.ledger.Apart)
    (filled : GatewayFilled py m) (texts : ∀ e ∈ m.accepted, ∀ t ∈ callTexts e.call,
      sha256Text t ∉ s.ledger.replies) : Project.Apart py ⟨s, m, none⟩ :=
  ⟨safe, ledger, filled, texts, fun _ _ _ h => (Option.some_ne_none _ h.symm).elim,
    fun _ h => (Option.some_ne_none _ h.symm).elim⟩

theorem Project.Apart.next (h : w.Apart py) (event : ProjectEvent) : (w.step py event).Apart py := by
  cases event with
  | broker event outside =>
    obtain ⟨hapart, hreplies⟩ := Advisor.step_apart h.safe h.ledger event
    have hold : ∀ digest ∈ (w.advisor.step event).ledger.replies, digest ∈ w.advisor.ledger.replies := by
      intro digest hd
      rcases hreplies digest hd with hd | ⟨requestId, now, target, a, rfl, _⟩
      · exact hd
      · cases outside
    exact ⟨h.safe.next event, hapart, h.filled, fun e he s hs hd => h.texts e he s hs (hold _ hd),
      h.finishing, fun g hg s hs hd => h.appending g hg s hs (hold _ hd)⟩
  | scan requestId target a =>
    simp only [Project.step, Project.scan]
    split
    · next hfence hscan =>
      refine ⟨h.safe, h.ledger, h.filled, h.texts, fun id t a' ha => ?_, fun g hg => ?_⟩
      · cases ha
        exact absent_of_scan h.filled hscan
      · cases Option.some.inj hg
    · exact h
  | check g =>
    simp only [Project.step, Project.check]
    split
    · next hfence hcheck =>
      refine ⟨h.safe, h.ledger, h.filled, h.texts, fun id t a ha => ?_, fun g' hg => ?_⟩
      · cases Option.some.inj ha
      · cases hg
        exact g.check_texts h.ledger hcheck
    · exact h
  | commit now =>
    cases hf : w.fence with
    | none =>
      have hstep : w.step py (.commit now) = w := by simp only [Project.step, Project.commit, hf]
      rw [hstep]
      exact h
    | some holder =>
      cases holder with
      | finishing requestId target a =>
        have hstep : w.step py (.commit now) = ⟨w.advisor.step (.operate requestId now
            (.finish target a (.ok ()))), w.memory, none⟩ := by
          simp only [Project.step, Project.commit, hf]
        rw [hstep]
        obtain ⟨hapart, hreplies⟩ := Advisor.step_apart h.safe h.ledger
          (.operate requestId now (.finish target a (.ok ())))
        refine .released (h.safe.next _) hapart h.filled fun e he s hs hd => ?_
        rcases hreplies _ hd with hd | ⟨_, _, _, a', he', hd⟩
        · exact h.texts e he s hs hd
        · -- the scan of the completion saw this record
          cases he'
          refine h.finishing _ _ _ hf e he ?_
          rw [← hd]
          exact List.mem_map_of_mem (texts_subset e hs)
      | appending g =>
        cases ha : w.memory.append py g.call g.ts with
        | error reason =>
          have hstep : w.step py (.commit now) = ⟨w.advisor, w.memory, none⟩ := by
            simp only [Project.step, Project.commit, hf, ha]
          rw [hstep]
          exact .released h.safe h.ledger h.filled h.texts
        | ok r =>
          have hstep : w.step py (.commit now) = ⟨w.advisor, r.2, none⟩ := by
            simp only [Project.step, Project.commit, hf, ha]
          rw [hstep]
          obtain ⟨hfilled, e, hacc, hcall⟩ := append_filled h.filled ha
          refine .released h.safe h.ledger hfilled fun e' he' s hs => ?_
          rw [hacc] at he'
          rcases List.mem_append.mp he' with he' | he'
          · exact h.texts e' he' s hs
          · rw [List.mem_singleton.mp he', hcall] at hs
            exact h.appending g hf s hs
  | die =>
    exact .released h.safe h.ledger h.filled h.texts

theorem Project.apart_of_reachable (h : (Project.machine py projectDir).Reachable w) : w.Apart py := by
  refine h.invariant ?_ ?_
  · rintro _ rfl
    have hledger : (Advisor.initial projectDir).ledger.Apart := by
      constructor <;> simp [Advisor.initial]
    have hfilled : GatewayFilled py .empty :=
      ⟨⟨fun _ => rfl, fun e he => by cases he⟩, fun e he => by cases he⟩
    exact .released Advisor.initial_safe hledger hfilled fun e he => by cases he
  · rintro s event _ hs rfl
    exact hs.next event

/-- An append that passes its checks and that global memory accepts is stored. -/
theorem Project.check_commit {g : Publication} {e : Entry} (hf : w.fence = none)
    (hc : g.check w.advisor.ledger = .ok ()) (he : acceptEntry py g.call g.ts = .ok e) (now : Nat) :
    ((w.step py (.check g)).step py (.commit now)).memory.accepted = w.memory.accepted ++ [e] := by
  have hcheck : w.step py (.check g) = ⟨w.advisor, w.memory, some (.appending g)⟩ := by
    simp only [Project.step, Project.check, hf, hc]
  rw [hcheck]
  simp only [Project.step, Project.commit, GlobalMemory.append, he, Except.map]

/-- In every reachable state of a project, whatever completions, appends, adoptions and other
transactions came in whatever order, the channels of global memory hold the records that were accepted,
no text that a caller put into one of them is a recorded reply, and no adopted strategy is a reply
recorded before it or after it. -/
theorem raw_output_never_durable (h : (Project.machine py projectDir).Reachable w) :
    (∀ kind, w.memory.channels kind = (kindRecords w.memory.accepted kind).flatMap entryLine) ∧
    (∀ e ∈ w.memory.accepted, ∀ s ∈ callTexts e.call, ∀ row ∈ w.advisor.ledger.requests,
      row.replySha256 ≠ some (sha256Text s)) ∧
    ∀ row ∈ w.advisor.ledger.requests, ∀ strategy, row.adoptedStrategy = some strategy →
      ∀ other ∈ w.advisor.ledger.requests, other.replySha256 ≠ some (sha256Text strategy) := by
  have hw := Project.apart_of_reachable h
  refine ⟨hw.filled.filled.channels, fun e he s hs row hrow hr => ?_, fun row hrow strategy ha other ho hr => ?_⟩
  · exact hw.texts e he s hs (mem_replies.mpr ⟨row, hrow, hr⟩)
  · exact hw.ledger.apart row hrow _ (hw.ledger.adopted row hrow strategy ha)
      (mem_replies.mpr ⟨other, ho, hr⟩)

end Runs

/-- The deep plan, as `gm_add` receives it without a provenance. -/
def planPublication : Publication where
  toGatewayAppend := deepPlan
  provenance := none
  adopted b hb := by
    cases hb
    rfl

end Danus.Strategy
