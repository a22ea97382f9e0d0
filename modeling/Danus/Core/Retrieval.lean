import Danus.Core.Channels

/-! Which accepted entries the exact lookup finds again. -/
namespace Danus.Core
open Python

variable {py : Interpreter}

section Channels
variable {records : List Json}

theorem entryLine_pos (record : Json) : 0 < (entryLine record).length := by
  obtain ⟨body, hline, _⟩ := entryLine_split record
  simp [hline]

/-- A channel of legible records is read back, and any other is refused. -/
theorem iterJsonlStrict_lines (hw : ∀ r ∈ records, Writable py r) (n seen : Nat)
    (hn : records.length < n) :
    ((∀ r ∈ records, Legible py r) →
      iterJsonlStrict py n seen (records.flatMap entryLine) = (records, none)) ∧
    ((∃ r ∈ records, ¬ Legible py r) →
      ∃ e, (iterJsonlStrict py n seen (records.flatMap entryLine)).2 = some e) := by
  induction records generalizing n seen with
  | nil =>
    obtain ⟨m, rfl⟩ : ∃ m, n = m + 1 := ⟨n - 1, by simp only [List.length_nil] at hn; omega⟩
    exact ⟨fun _ => rfl, fun h => by simp at h⟩
  | cons r records ih =>
    obtain ⟨m, rfl⟩ : ∃ m, n = m + 1 := ⟨n - 1, by omega⟩
    obtain ⟨hok, herr⟩ := iterJsonlStrict_entryLine (hw r List.mem_cons_self) m seen
      (records.flatMap entryLine)
    have ih' := ih (fun r' hr' => hw r' (List.mem_cons_of_mem _ hr')) m (seen + 1)
      (by simp only [List.length_cons] at hn; omega)
    rw [List.flatMap_cons]
    constructor
    · intro hl
      rw [hok (hl r List.mem_cons_self), ih'.1 fun r' hr' => hl r' (List.mem_cons_of_mem _ hr')]
    · intro hl
      by_cases hr : Legible py r
      · rw [hok hr]
        refine ih'.2 ?_
        obtain ⟨r', hr', hnl⟩ := hl
        rcases List.mem_cons.mp hr' with rfl | hr'
        · exact (hnl hr).elim
        · exact ⟨r', hr', hnl⟩
      · exact herr hr

theorem length_lt_lines (records : List Json) :
    records.length < (records.flatMap entryLine).length + 1 := by
  induction records with
  | nil => exact Nat.one_pos
  | cons r records ih =>
    have h := entryLine_pos r
    rw [List.flatMap_cons, List.length_append, List.length_cons]
    omega

end Channels

section Matches
variable {id : PyStr} {found : Option Json} {entries : List Json}

theorem matchEntries_hit {entry : Json} (h : hasId id entry = true) :
    matchEntries id none (entry :: entries) = matchEntries id (some entry) entries := by
  simp only [matchEntries, if_pos h]

theorem matchEntries_twice {entry e : Json} (h : hasId id entry = true) :
    matchEntries id (some e) (entry :: entries) = .error (.duplicateId id) := by
  simp only [matchEntries, if_pos h]

theorem matchEntries_miss {entry : Json} (h : ¬ hasId id entry = true) :
    matchEntries id found (entry :: entries) = matchEntries id found entries := by
  cases found <;> simp only [matchEntries, if_neg h]

/-- The inner loop by the entries that have the id. -/
theorem matchEntries_eq (id : PyStr) (found : Option Json) (entries : List Json) :
    matchEntries id found entries = match found.toList ++ entries.filter (hasId id) with
      | [] => .ok none
      | [entry] => .ok (some entry)
      | _ => .error (.duplicateId id) := by
  induction entries generalizing found with
  | nil => cases found <;> rfl
  | cons entry entries ih =>
    rw [List.filter_cons]
    by_cases h : hasId id entry = true
    · rw [if_pos h]
      cases found with
      | some e => rw [matchEntries_twice h]; rfl
      | none => rw [matchEntries_hit h, ih]; rfl
    · rw [if_neg h, matchEntries_miss h, ih]

end Matches

/-- The records of the accepted calls of one kind, in their order. -/
def kindRecords (accepted : List Entry) (kind : Kind) : List Json :=
  (accepted.filter fun e => e.kind = kind).map Entry.record

/-- The channels hold the lines of what was accepted. -/
structure GlobalMemory.Filled (py : Interpreter) (m : GlobalMemory) : Prop where
  channels : ∀ kind, m.channels kind = (kindRecords m.accepted kind).flatMap entryLine
  writable : ∀ e ∈ m.accepted, Writable py e.record

section Runs
variable {m : GlobalMemory}

/-- What is accepted is the call itself at its time, and `json.dumps` can write it. -/
theorem acceptEntry_ok {call : AppendCall} {ts : PyStr} {e : Entry}
    (h : acceptEntry py call ts = .ok e) : Writable py e.record := by
  unfold acceptEntry at h
  cases hk : Kind.ofName? call.kind with
  | none => simp [hk] at h
  | some kind =>
    simp only [hk, bind, Except.bind, pure, Except.pure, throw, throwThe, MonadExceptOf.throw] at h
    cases hv : validateAdvisorCheckpoint call.claim call.evidence call.links with
    | error reason =>
      simp only [hv] at h
      split_ifs at h with _ _ hd
      cases h
      exact ⟨⟨_, rfl⟩, Nat.not_lt.mp hd⟩
    | ok u =>
      simp only [hv] at h
      split_ifs at h with _ _ hd _ hd
      · cases h
        exact ⟨⟨_, rfl⟩, Nat.not_lt.mp hd⟩
      · cases h
        exact ⟨⟨_, rfl⟩, Nat.not_lt.mp hd⟩

theorem GlobalMemory.append_ok {call : AppendCall} {ts : PyStr} {r : PyStr × GlobalMemory}
    (ha : m.append py call ts = .ok r) : ∃ e, Writable py e.record ∧ r.1 = e.id ∧
      r.2.accepted = m.accepted ++ [e] ∧ ∀ kind, r.2.channels kind =
        if kind = e.kind then m.channels kind ++ entryLine e.record else m.channels kind := by
  unfold GlobalMemory.append at ha
  cases he : acceptEntry py call ts with
  | error e =>
    rw [he] at ha
    cases ha
  | ok e =>
    rw [he] at ha
    cases ha
    exact ⟨e, acceptEntry_ok he, rfl, rfl, fun _ => rfl⟩

theorem GlobalMemory.filled_append (h : m.Filled py) {call : AppendCall} {ts : PyStr}
    {r : PyStr × GlobalMemory} (ha : m.append py call ts = .ok r) : r.2.Filled py := by
  obtain ⟨e, hw, _, hacc, hch⟩ := GlobalMemory.append_ok ha
  refine ⟨fun kind => ?_, fun e' he' => ?_⟩
  · rw [hch, hacc, kindRecords, List.filter_append, List.map_append, List.flatMap_append]
    by_cases hk : kind = e.kind
    · rw [if_pos hk, h.channels, List.filter_cons_of_pos (by simp [hk])]
      simp [kindRecords]
    · rw [if_neg hk, h.channels, List.filter_cons_of_neg (by simp [Ne.symm hk])]
      simp [kindRecords]
  · rw [hacc] at he'
    rcases List.mem_append.mp he' with he' | he'
    · exact h.writable e' he'
    · rw [List.mem_singleton.mp he']
      exact hw

/-- After every sequence of calls the channels hold what was accepted. -/
theorem GlobalMemory.filled_run (calls : List (AppendCall × PyStr)) :
    (GlobalMemory.run py calls).Filled py := by
  unfold GlobalMemory.run
  refine List.foldlRecOn calls _ ⟨fun _ => rfl, fun e he => by cases he⟩ ?_
  intro m hm c _
  cases ha : m.append py c.1 c.2 with
  | ok r => exact GlobalMemory.filled_append hm ha
  | error e => exact hm

end Runs

section Lookup
variable {m : GlobalMemory} {id : PyStr}

/-- What the scan of these kinds decides, by the records with the id. -/
def verdict (id : PyStr) : List Json → Except GmError (Option Json)
  | [] => .ok none
  | [entry] => .ok (some entry)
  | _ => .error (.duplicateId id)

theorem channelEntries_filled (h : m.Filled py) (kind : Kind) :
    ((∀ r ∈ kindRecords m.accepted kind, Legible py r) →
      channelEntries py (m.channels kind) = (kindRecords m.accepted kind, none)) ∧
    ((∃ r ∈ kindRecords m.accepted kind, ¬ Legible py r) →
      ∃ e, (channelEntries py (m.channels kind)).2 = some e) := by
  rw [h.channels, channelEntries]
  refine iterJsonlStrict_lines (fun r hr => ?_) _ _ (length_lt_lines _)
  obtain ⟨e, he, rfl⟩ := List.mem_map.mp hr
  exact h.writable e (List.mem_of_mem_filter he)

/-- Where all is legible, the scan finds what its records decide. -/
theorem matchChannels_legible (id : PyStr) (h : m.Filled py) (kinds : List Kind) (found : Option Json)
    (hl : ∀ kind ∈ kinds, ∀ r ∈ kindRecords m.accepted kind, Legible py r) :
    matchChannels py m.channels id found kinds = verdict id
      (found.toList ++ (kinds.flatMap (kindRecords m.accepted)).filter (hasId id)) := by
  induction kinds generalizing found with
  | nil => cases found <;> rfl
  | cons kind kinds ih =>
    have hc := (channelEntries_filled h kind).1 (hl kind List.mem_cons_self)
    have ih' := fun found => ih found fun k hk => hl k (List.mem_cons_of_mem _ hk)
    simp only [matchChannels, hc]
    rw [matchEntries_eq, List.flatMap_cons, List.filter_append, ← List.append_assoc]
    generalize found.toList ++ (kindRecords m.accepted kind).filter (hasId id) = l
    cases l with
    | nil => exact ih' none
    | cons entry l =>
      cases l with
      | nil => exact ih' (some entry)
      | cons other l => rfl

/-- A scan that succeeds has met only legible records. -/
theorem legible_of_matchChannels (h : m.Filled py) (kinds : List Kind) {found r : Option Json}
    (hok : matchChannels py m.channels id found kinds = .ok r) :
    ∀ kind ∈ kinds, ∀ r ∈ kindRecords m.accepted kind, Legible py r := by
  induction kinds generalizing found with
  | nil =>
    intro kind hk
    cases hk
  | cons kind kinds ih =>
    have hno : ¬ ∃ r ∈ kindRecords m.accepted kind, ¬ Legible py r := by
      intro hbad
      obtain ⟨e, he⟩ := (channelEntries_filled h kind).2 hbad
      rw [matchChannels, he] at hok
      cases hm : matchEntries id found (channelEntries py (m.channels kind)).1 with
      | error e' =>
        rw [hm] at hok
        cases hok
      | ok found' =>
        rw [hm] at hok
        cases hok
    have hl : ∀ r ∈ kindRecords m.accepted kind, Legible py r := by
      intro r hr
      by_contra hn
      exact hno ⟨r, hr, hn⟩
    have hc := (channelEntries_filled h kind).1 hl
    intro k hk
    rcases List.mem_cons.mp hk with rfl | hk
    · exact hl
    · rw [matchChannels, hc] at hok
      cases hm : matchEntries id found (kindRecords m.accepted kind) with
      | error e' =>
        rw [hm] at hok
        cases hok
      | ok found' =>
        rw [hm] at hok
        exact ih hok k hk

theorem kindRecords_cons (e : Entry) (accepted : List Entry) (kind : Kind) :
    kindRecords (e :: accepted) kind =
      (if e.kind = kind then [e.record] else []) ++ kindRecords accepted kind := by
  unfold kindRecords
  rw [List.filter_cons]
  by_cases h : e.kind = kind
  · simp [h]
  · simp [h]

/-- Every accepted record is in the scan once, whatever its kind. -/
theorem kindRecords_perm (accepted : List Entry) :
    (Kind.all.flatMap (kindRecords accepted)).Perm (accepted.map Entry.record) := by
  have key : ∀ (e : Entry) (rest : List Entry) (kinds : List Kind), kinds.Nodup →
      (kinds.flatMap (kindRecords (e :: rest))).Perm
        ((if e.kind ∈ kinds then [e.record] else []) ++ kinds.flatMap (kindRecords rest)) := by
    intro e rest kinds hn
    induction kinds with
    | nil => exact List.Perm.refl _
    | cons kind kinds ih =>
      obtain ⟨hnot, hn⟩ := List.nodup_cons.mp hn
      rw [List.flatMap_cons, List.flatMap_cons, kindRecords_cons]
      by_cases h : e.kind = kind
      · have hout : e.kind ∉ kinds := h ▸ hnot
        have hperm := ih hn
        rw [if_neg hout, List.nil_append] at hperm
        rw [if_pos h, if_pos (List.mem_cons.mpr (.inl h)), List.append_assoc]
        exact (hperm.append_left _).append_left _
      · have hmem : (e.kind ∈ kind :: kinds) = (e.kind ∈ kinds) := by simp [h]
        rw [if_neg h, List.nil_append]
        simp only [hmem]
        refine ((ih hn).append_left _).trans ?_
        rw [← List.append_assoc, ← List.append_assoc]
        exact List.perm_append_comm.append_right _
  induction accepted with
  | nil => exact List.Perm.refl _
  | cons e accepted ih =>
    refine (key e accepted Kind.all (by decide)).trans ?_
    rw [if_pos (Kind.mem_all e.kind)]
    exact ih.cons e.record

/-- What the exact lookup gives, where all that was accepted is legible. -/
theorem getImmutable_legible (h : m.Filled py) (hl : ∀ e ∈ m.accepted, Legible py e.record)
    (hid : isHexOf 16 id = true) {e : Entry} (he : e ∈ m.accepted)
    (hone : (m.accepted.map Entry.record).filter (hasId id) = [e.record]) :
    getImmutable py m.channels id = .ok e.record := by
  have hscan : ((Kind.all.flatMap (kindRecords m.accepted)).filter (hasId id)) = [e.record] := by
    have hp := (kindRecords_perm m.accepted).filter (hasId id)
    rw [hone] at hp
    exact List.perm_singleton.mp hp
  have hkinds : ∀ kind ∈ Kind.all, ∀ r ∈ kindRecords m.accepted kind, Legible py r := by
    intro kind _ r hr
    obtain ⟨e', he', rfl⟩ := List.mem_map.mp hr
    exact hl e' (List.mem_of_mem_filter he')
  have hmatch := matchChannels_legible id h Kind.all none hkinds
  rw [Option.toList_none, List.nil_append, hscan] at hmatch
  have hcanon : ∃ bytes, canonicalRecord py e.record = .ok bytes := by
    have hr := hl e he
    have hw := h.writable e he
    refine ⟨e.record.preimage (Json.compact false true), ?_⟩
    simp [canonicalRecord, Nat.not_lt.mpr hw.nesting, hr.numbers, Nat.not_lt.mpr hr.size]
  obtain ⟨bytes, hb⟩ := hcanon
  simp only [getImmutable, hid, hmatch, verdict, hb]
  rfl

/-- What a successful exact lookup says of all that was accepted. -/
theorem of_getImmutable (h : m.Filled py) {r : Json} (hok : getImmutable py m.channels id = .ok r) :
    (∀ e ∈ m.accepted, Legible py e.record) ∧
      (m.accepted.map Entry.record).filter (hasId id) = [r] := by
  unfold getImmutable at hok
  split_ifs at hok
  cases hm : matchChannels py m.channels id none Kind.all with
  | error e =>
    rw [hm] at hok
    cases hok
  | ok found =>
    have hkinds := legible_of_matchChannels h Kind.all hm
    have hmatch := matchChannels_legible id h Kind.all none hkinds
    rw [hm, Option.toList_none, List.nil_append] at hmatch
    have hp := (kindRecords_perm m.accepted).filter (hasId id)
    refine ⟨fun e he => ?_, ?_⟩
    · refine hkinds e.kind (Kind.mem_all _) _ (List.mem_map.mpr ⟨e, ?_, rfl⟩)
      exact List.mem_filter.mpr ⟨he, by simp⟩
    · rw [hm] at hok
      generalize (Kind.all.flatMap (kindRecords m.accepted)).filter (hasId id) = l at hmatch hp
      cases l with
      | nil =>
        cases hmatch
        cases hok
      | cons entry l =>
        cases l with
        | nil =>
          cases hmatch
          have hr : entry = r := by
            simp only [Except.map] at hok
            split at hok
            · cases hok
            · cases hok
              rfl
          rw [← hr]
          exact List.perm_singleton.mp hp.symm
        | cons other l => cases hmatch

end Lookup

/-- The call does not ask for another id than the one it gets. -/
def Entry.KeepsId (e : Entry) : Prop :=
  ∀ v, e.call.extra.lookup "id".toList = some v → v = .str e.id

theorem hasId_iff {id : PyStr} {record : Json} :
    hasId id record = true ↔ record.get? "id".toList = some (.str id) := by
  unfold hasId
  generalize record.get? "id".toList = v
  cases v with
  | none => simp
  | some v => cases v <;> simp

theorem Entry.record_get (e : Entry) (key : PyStr) :
    e.record.get? key = (e.call.extra.lookup key).or
      ([("id".toList, Json.str e.id), ("timestamp_utc".toList, .str e.ts),
        ("author".toList, .str e.call.author), ("kind".toList, .str e.call.kind),
        ("claim".toList, .str e.call.claim), ("evidence".toList, .str e.call.evidence),
        ("verifiable".toList, .bool (e.call.verifiable.getD e.kind.verifiable)),
        ("status".toList, .str (if (e.call.verifiable.getD e.kind.verifiable) = true then
          "unverified".toList else "open".toList)),
        ("fact_id".toList, .null), ("links".toList, .obj (e.call.links.getD [])),
        ("glossary".toList, .obj (e.call.glossary.getD []))].lookup key) :=
  Json.lookup_setItems e.call.extra_keys _ key

theorem Entry.record_id (e : Entry) :
    e.record.get? "id".toList = some ((e.call.extra.lookup "id".toList).getD (.str e.id)) := by
  rw [e.record_get]
  cases e.call.extra.lookup "id".toList <;> rfl

/-- `**extra` cannot replace the evidence. -/
theorem Entry.record_evidence (e : Entry) :
    e.record.get? "evidence".toList = some (.str e.call.evidence) := by
  have hnone : e.call.extra.lookup "evidence".toList = none := by
    cases hl : e.call.extra.lookup "evidence".toList with
    | none => rfl
    | some v =>
      have hname : "evidence".toList ∉ appendParameters :=
        e.call.extra_names _ (mem_of_lookup_eq_some hl)
      exact (hname (by decide)).elim
  rw [e.record_get, hnone]
  rfl

theorem Entry.keepsId_iff (e : Entry) : e.KeepsId ↔ hasId e.id e.record = true := by
  rw [hasId_iff, e.record_id, Entry.KeepsId, Option.some_inj]
  cases e.call.extra.lookup "id".toList with
  | none => simp
  | some v => simp

/-- Evidence as long as the limit leaves no room for the rest of the record. -/
theorem not_legible_of_evidence {e : Entry} (h : maxSerializedBytes ≤ e.call.evidence.length) :
    ¬ Legible py e.record := by
  intro hl
  have hitems : ∃ items, e.record = .obj items := ⟨_, rfl⟩
  obtain ⟨items, hi⟩ := hitems
  have hev := e.record_evidence
  rw [hi] at hev
  have hvalue := Json.value_lt_dumps (Json.compact false true) (mem_of_lookup_eq_some hev)
  have hquote := Json.length_le_quote false e.call.evidence
  have hsize : utf8Length (Json.dumps (Json.compact false true) e.record) ≤ maxSerializedBytes := hl.size
  rw [hi] at hsize
  have hstr : Json.dumps (Json.compact false true) (.str e.call.evidence) =
    Json.quote false e.call.evidence := rfl
  rw [hstr] at hvalue
  omega

theorem isHexOf_entryId (kind claim author ts : PyStr) :
    isHexOf 16 (entryId kind claim author ts) = true := by
  unfold entryId
  generalize Json.preimage _ _ = bytes
  have h := Sha256.hexdigest_isHexOf bytes
  simp only [isHexOf, Bool.and_eq_true, beq_iff_eq, List.all_eq_true] at h ⊢
  refine ⟨?_, fun c hc => h.2 c (List.mem_of_mem_take hc)⟩
  rw [List.length_take, h.1]
  rfl

/-- Of entries with distinct ids, the ones with the id of `e` are `e` alone. -/
theorem filter_key {l : List Entry} {e : Entry} (hn : (l.map Entry.id).Nodup) (he : e ∈ l) :
    l.filter (fun e' => decide (e'.id = e.id)) = [e] := by
  induction l with
  | nil => cases he
  | cons a l ih =>
    rw [List.map_cons, List.nodup_cons] at hn
    obtain ⟨hnot, hn⟩ := hn
    rcases List.mem_cons.mp he with rfl | he
    · rw [List.filter_cons_of_pos (by simp), List.filter_eq_nil_iff.mpr]
      intro e' he' h
      exact hnot (List.mem_map.mpr ⟨e', he', of_decide_eq_true h⟩)
    · rw [List.filter_cons_of_neg, ih hn he]
      intro h
      exact hnot (List.mem_map.mpr ⟨e, he, (of_decide_eq_true h).symm⟩)

/-- After any calls, every accepted entry is found again just when the strict reader reads every
accepted record, no call asked for another id than its own, and no two of them got the same one. -/
theorem retrievable_iff (py : Interpreter) (calls : List (AppendCall × PyStr)) :
    (∀ e ∈ (GlobalMemory.run py calls).accepted,
      getImmutable py (GlobalMemory.run py calls).channels e.id = .ok e.record) ↔
    (∀ e ∈ (GlobalMemory.run py calls).accepted, Legible py e.record ∧ e.KeepsId) ∧
      ((GlobalMemory.run py calls).accepted.map Entry.id).Nodup := by
  have hf : (GlobalMemory.run py calls).Filled py := GlobalMemory.filled_run calls
  generalize GlobalMemory.run py calls = m at hf ⊢
  constructor
  · intro hget
    have hone : ∀ e ∈ m.accepted,
        (m.accepted.map Entry.record).filter (hasId e.id) = [e.record] :=
      fun e he => (of_getImmutable hf (hget e he)).2
    have hkeeps : ∀ e ∈ m.accepted, hasId e.id e.record = true := by
      intro e he
      have hm : e.record ∈ (m.accepted.map Entry.record).filter (hasId e.id) := by
        rw [hone e he]
        exact List.mem_singleton_self _
      exact (List.mem_filter.mp hm).2
    refine ⟨fun e he => ⟨(of_getImmutable hf (hget e he)).1 e he, e.keepsId_iff.mpr (hkeeps e he)⟩, ?_⟩
    rw [List.nodup_iff_count_le_one]
    intro id
    by_cases hid : id ∈ m.accepted.map Entry.id
    · obtain ⟨e, he, rfl⟩ := List.mem_map.mp hid
      have hlen := congrArg List.length (hone e he)
      rw [← List.countP_eq_length_filter, List.countP_map] at hlen
      rw [List.count, List.countP_map]
      refine le_trans (List.countP_mono_left fun e' he' h => ?_) hlen.le
      simp only [Function.comp_apply, beq_iff_eq] at h ⊢
      rw [← h]
      exact hkeeps e' he'
    · rw [List.count_eq_zero_of_not_mem hid]
      exact Nat.zero_le 1
  · rintro ⟨hall, hnodup⟩ e he
    refine getImmutable_legible hf (fun e he => (hall e he).1) (isHexOf_entryId _ _ _ _) he ?_
    have hkeeps : ∀ e ∈ m.accepted, hasId e.id e.record = true :=
      fun e he => e.keepsId_iff.mp (hall e he).2
    rw [List.filter_map, List.filter_congr, filter_key hnodup he, List.map_singleton]
    intro e' he'
    have hself := hasId_iff.mp (hkeeps e' he')
    rw [Function.comp_apply, Bool.eq_iff_iff, decide_eq_true_iff, hasId_iff, hself, Option.some_inj,
      Json.str.injEq]
    exact Iff.rfl

/-- A plan that a caller could append, with this evidence. -/
def planCall (evidence : PyStr) : AppendCall where
  kind := "plan".toList
  claim := "try induction".toList
  evidence := evidence
  author := "worker".toList
  verifiable := none
  links := none
  glossary := none
  extra := []
  extra_names := by simp
  extra_keys := by simp

/-- A plan with 32 KiB of evidence is accepted, and the plan accepted before it is lost. -/
theorem oversized_hides_others : ¬ ∀ (py : Interpreter) (calls : List (AppendCall × PyStr)),
    ∀ e ∈ (GlobalMemory.run py calls).accepted,
      getImmutable py (GlobalMemory.run py calls).channels e.id = .ok e.record := by
  intro hall
  have hget := hall ⟨1000, 1000⟩ [(planCall "on n".toList, "2026-01-01".toList),
    (planCall (List.replicate (32 * 1024) 'x'), "2026-01-02".toList)]
  have hf : (GlobalMemory.run ⟨1000, 1000⟩ [(planCall "on n".toList, "2026-01-01".toList),
      (planCall (List.replicate (32 * 1024) 'x'), "2026-01-02".toList)]).Filled ⟨1000, 1000⟩ :=
    GlobalMemory.filled_run _
  have hacc : (GlobalMemory.run ⟨1000, 1000⟩ [(planCall "on n".toList, "2026-01-01".toList),
      (planCall (List.replicate (32 * 1024) 'x'), "2026-01-02".toList)]).accepted =
        [⟨.plan, planCall "on n".toList, "2026-01-01".toList⟩,
          ⟨.plan, planCall (List.replicate (32 * 1024) 'x'), "2026-01-02".toList⟩] := by
    rfl
  rw [hacc] at hget
  have hlegible := (of_getImmutable hf (hget _ List.mem_cons_self)).1
  rw [hacc] at hlegible
  refine not_legible_of_evidence ?_ (hlegible _ (List.mem_cons_of_mem _ List.mem_cons_self))
  exact (List.length_replicate (n := 32 * 1024) (a := 'x')).ge

end Danus.Core
