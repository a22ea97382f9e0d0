import Danus.Lib.JsonText
import Danus.Strategy.AdvisorCrash

/-! A dispatch that dies strands at most its own request. -/
namespace Danus.Strategy
open Python Machines Checks Python.Json

section Runs
variable [Patterns] {projectDir : PyStr} {s t u : Advisor}

/-- What every step keeps, a run keeps from any state that it has visited. -/
theorem Advisor.history_keeps {P : Advisor → Prop} {ok : List Advisor → Event → Prop}
    (hP : ∀ (s : Advisor) l' clicked, s.Safe → P s → s.ledger.Step l' clicked →
      P ⟨l', s.clicked ++ clicked⟩) {later : List Advisor}
    (h : (Advisor.machine projectDir).History ok (t :: later)) (hu : u ∈ t :: later) (hPu : P u) :
    P t := by
  generalize hl : t :: later = visited at h
  induction h generalizing t later with
  | start _ =>
    obtain ⟨rfl, rfl⟩ := List.cons.inj hl
    rw [← List.mem_singleton.mp hu]
    exact hPu
  | @step s' t' past event hp _ hstep ih =>
    obtain ⟨rfl, rfl⟩ := List.cons.inj hl
    rcases List.mem_cons.mp hu with rfl | hu
    · exact hPu
    · have hs' := ih hu rfl
      have hsafe := Advisor.safe_of_reachable hp.reachable
      have hstep : t = s'.step event := hstep
      rcases Advisor.step_cases hsafe event with he | ⟨l', clicked, hst, he⟩
      · rw [hstep, he]
        exact hs'
      · rw [hstep, he]
        exact hP s' l' clicked hsafe hs' hst

/-- A request whose dispatch is behind it, or stranded, is never clicked afterwards. -/
theorem Advisor.never_clicked {id : PyStr} {ok : List Advisor → Event → Prop} {later : List Advisor}
    (h : (Advisor.machine projectDir).History ok (t :: later)) (hu : u ∈ t :: later)
    (hid : id ∉ u.clicked) (hcl : u.ledger.Closed id) : id ∉ t.clicked := by
  refine (Advisor.history_keeps (P := fun s => id ∉ s.clicked ∧ s.ledger.Closed id) ?_ h hu
    ⟨hid, hcl⟩).1
  rintro s l' clicked hsafe ⟨hid, hcl⟩ hst
  obtain ⟨hcl', hnot⟩ := hcl.step hsafe.ledger hst
  refine ⟨?_, hcl'⟩
  rw [List.mem_append]
  rintro (hm | hm)
  · exact hid hm
  · exact hnot hm

/-- Every operation on a stranded request raises, in every later state. -/
theorem Advisor.stranded_refused {row : Request} {ok : List Advisor → Event → Prop}
    {later : List Advisor} (h : (Advisor.machine projectDir).History ok (t :: later))
    (hu : u ∈ t :: later) (hrow : row ∈ u.ledger.requests) (hs : u.ledger.Stranded row)
    (op : Operation) (now : Nat) : ∃ e, op.run t.ledger row.requestId now = .error e := by
  have hkeep := Advisor.history_keeps
    (P := fun s => row ∈ s.ledger.requests ∧ s.ledger.Stranded row)
    (fun s l' clicked hsafe hp hst => hp.2.step hsafe.ledger hp.1 hst) h hu ⟨hrow, hs⟩
  have hc := (Advisor.safe_of_reachable h.reachable).ledger
  cases hr : op.run t.ledger row.requestId now with
  | error e => exact ⟨e, rfl⟩
  | ok out =>
    obtain ⟨r, hg⟩ := operate_reads hr
    exact (hkeep.2.refused hc.requestIds hkeep.1 hg).elim

end Runs

section Deaths
variable [Patterns] {l l' : Ledger} {id : PyStr} {now : Nat} {url : Option PyStr}
  {authority : Authority} {token : Uuid} {point : CrashPoint}

omit [Patterns] in
theorem assertLineage_without_head {row : Request} (h : l.assertLineage row true = .ok ()) :
    l.assertLineage row false = .ok () := by
  unfold Ledger.assertLineage at h ⊢
  obtain ⟨_, hf, h⟩ := bind_ok.mp h
  refine bind_ok.mpr ⟨(), hf, ?_⟩
  cases hp : row.predecessor with
  | none => rfl
  | some p =>
    rw [hp] at h
    obtain ⟨_, hpre, _⟩ := bind_ok.mp h
    exact bind_ok.mpr ⟨(), hpre, rfl⟩

omit [Patterns] in
/-- A request does not continue itself. -/
theorem predecessor_ne {row : Request} {head : Bool} (h : l.assertLineage row head = .ok ()) :
    ∀ p, row.predecessor = some p → p.requestId ≠ row.requestId := by
  intro p hp
  obtain ⟨_, hf, _⟩ := bind_ok.mp h
  unfold Ledger.assertLineageFields at hf
  rw [hp] at hf
  exact (unless_ok.mp (unless_ok.mp hf).2).1

omit [Patterns] in
/-- What a dispatch has found of its request before it could die. -/
theorem dispatchCas_ok {row : Request} {raw : List Nat}
    (h : dispatchCas l id url authority token = .ok (row, raw)) :
    l.getInTx id = .ok row ∧ row.state = .authorized ∧ l.assertLineage row true = .ok () ∧
      dispatchAnchorRaw row (sha256Text token.text) = .ok raw := by
  unfold dispatchCas validateDispatch at h
  simp only [↓bind_ok, ↓unless_ok, pure_ok, Prod.mk.injEq] at h
  obtain ⟨_, _, _, _, old, hold, _, ⟨_, _, _, hlin, _⟩, hs, _, hraw, rfl, rfl⟩ := h
  exact ⟨hold, Decidable.not_not.mp hs, hlin, hraw⟩

/-- What a death of a dispatch leaves: the ledger as it was, its request stranded, or its request
dispatched. -/
inductive Death (l : Ledger) (old : Request) : CrashPoint → Ledger → Prop where
  | beforeAnchor : Death l old .beforeAnchor l
  | anchored {raw written} : Death l old (.anchored written) (l.anchored old.requestId raw)
  | committed {tokenSha256 raw now} : Death l old .committed
      ((l.anchored old.requestId raw).set (old.dispatched tokenSha256 raw now))

omit [Patterns] in
theorem dispatchDies_ok [Patterns] (h : dispatchDies l id now url authority token point = .ok l') :
    ∃ old, l.getInTx id = .ok old ∧ old.state = .authorized ∧ l.assertLineage old true = .ok () ∧
      Death l old point l' ∧ (point = .committed → ∃ r, l'.getInTx id = .ok r) := by
  cases point with
  | beforeAnchor =>
    obtain ⟨⟨old, raw⟩, hcas, rfl⟩ := map_ok.mp h
    obtain ⟨hold, hs, hlin, _⟩ := dispatchCas_ok hcas
    exact ⟨old, hold, hs, hlin, .beforeAnchor, fun he => by cases he⟩
  | anchored written =>
    obtain ⟨⟨old, raw⟩, hcas, h⟩ := bind_ok.mp h
    obtain ⟨hold, hs, hlin, _⟩ := dispatchCas_ok hcas
    obtain ⟨⟨digest, anchored⟩, hw, h⟩ := bind_ok.mp h
    obtain ⟨_, he⟩ := Prod.mk.inj (writeAnchorOnce_ok hw).2
    have hl : anchored = l' := pure_ok.mp h
    refine ⟨old, hold, hs, hlin, ?_, fun he => by cases he⟩
    rw [← hl, he, ← (getInTx_mem hold).2]
    exact .anchored
  | committed =>
    obtain ⟨out, hcommit, rfl⟩ := map_ok.mp h
    obtain ⟨⟨old, raw⟩, hcas, _⟩ := bind_ok.mp hcommit
    obtain ⟨hold, hs, hlin, _⟩ := dispatchCas_ok hcas
    obtain ⟨old', raw', hold', _, _, hl, hread⟩ := dispatchCommit_ok hcommit
    have he : old = old' := Except.ok.inj (hold.symm.trans hold')
    subst he
    refine ⟨old, hold, hs, hlin, ?_, fun _ => ⟨_, hread⟩⟩
    rw [hl]
    have hid := (getInTx_mem hold).2
    rw [← hid]
    exact .committed

omit [Patterns] in
theorem Death.alike {old : Request} (hc : l.Coherent) (hmem : old ∈ l.requests)
    (hs : old.state = .authorized) (h : Death l old point l') : l.Alike old.requestId l' := by
  cases h with
  | beforeAnchor => exact alike_refl
  | anchored => exact alike_anchored
  | committed => exact alike_dispatched hc hmem hs

omit [Patterns] in
/-- Without an anchor that the ledger does not know of, a broker can be opened as before. -/
theorem Death.opens {old : Request} (hc : l.Coherent) (hc' : l'.Coherent) (h : Death l old point l')
    (hp : ∀ written, point ≠ .anchored written)
    (hopen : l.open = .ok l) (hread : point = .committed → ∃ r, l'.getInTx old.requestId = .ok r) :
    l'.open = .ok l' := by
  have hall : ∀ row ∈ l.requests, l.assertAnchor row = .ok () := by
    intro row hrow
    rcases (hc.sound row hrow).2 with ha | hs
    · exact ha
    · obtain ⟨e, he⟩ := initializeAnchors_stranded hrow hs hc.sound
      unfold Ledger.open at hopen
      rw [he] at hopen
      cases hopen
  apply initializeAnchors_of_anchored
  cases h with
  | beforeAnchor => exact hall
  | anchored => exact (hp _ rfl).elim
  | committed =>
    obtain ⟨r, hr⟩ := hread rfl
    intro row hrow
    by_cases he : row.requestId = old.requestId
    · have hrr : r = row := hc'.same (getInTx_mem hr).1 hrow ((getInTx_mem hr).2.trans he.symm)
      exact hrr ▸ (getInTx_ok.mp hr).2.2.2
    · rcases Rows.mem_set_cases hrow with hnew | ⟨hrow, _⟩
      · exact (he (congrArg Request.requestId hnew :)).elim
      · rw [← hall row hrow]
        exact assertAnchor_congr (anchored_anchors_of_ne he)

/-- The owner of a request whose dispatch died before its anchor or after its commit can read it and
end it. -/
theorem Death.ends {old : Request} (hc : l.Coherent) (hc' : l'.Coherent)
    (hold : l.getInTx id = .ok old) (hs : old.state = .authorized)
    (hlin : l.assertLineage old true = .ok ()) (h : Death l old point l')
    (hp : ∀ written, point ≠ .anchored written)
    (hread : point = .committed → ∃ r, l'.getInTx id = .ok r) :
    ∃ row, getRequest l' id = .ok row ∧ ∀ reason n now,
      validateText reason "abandon reason" 4096 = .ok n →
      assertNoSecret reason "abandon reason" = .ok () →
      ∃ r l₁, abandon l' id reason true now = .ok (r, l₁) ∧ r.state.terminal = true := by
  have key : ∃ row, l'.getInTx id = .ok row ∧ l'.assertLineage row false = .ok () ∧
      (row.state = .authorized ∨ row.state = .dispatching) := by
    obtain ⟨hmem, hid⟩ := getInTx_mem hold
    have hne := predecessor_ne hlin
    have hfalse := assertLineage_without_head hlin
    cases h with
    | beforeAnchor => exact ⟨old, hold, hfalse, .inl hs⟩
    | anchored => exact (hp _ rfl).elim
    | @committed tokenSha256 raw now =>
      obtain ⟨r, hr⟩ := hread rfl
      have hmemr := getInTx_mem hr
      have hnew : old.dispatched tokenSha256 raw now ∈
          ((l.anchored old.requestId raw).set (old.dispatched tokenSha256 raw now)).requests :=
        Rows.mem_set_self hmem rfl
      have hrr : r = old.dispatched tokenSha256 raw now :=
        hc'.same hmemr.1 hnew (hmemr.2.trans hid.symm)
      subst hrr
      refine ⟨_, hr, ?_, .inr rfl⟩
      have hal : l.Alike old.requestId
          ((l.anchored old.requestId raw).set (old.dispatched tokenSha256 raw now)) :=
        alike_dispatched hc hmem hs
      have hsame : ((l.anchored old.requestId raw).set
          (old.dispatched tokenSha256 raw now)).assertLineage old false = l.assertLineage old false :=
        hal.assertLineage hne
      rw [← hfalse, ← hsame]
      rfl
  obtain ⟨row, hg, hl, hst⟩ := key
  refine ⟨row, bind_ok.mpr ⟨row, hg, bind_ok.mpr ⟨(), hl, rfl⟩⟩, ?_⟩
  intro reason n now htext hsecret
  exact abandon_ends hg hl hst htext hsecret

/-- A dispatch that dies at any point leaves every other request its row, and every sequence of calls
on other requests, made by brokers that are open, its answers. Before the anchor's write or after the
commit, a broker can be opened as before, and the request can be read and ended; in between, every
later operation on it raises. No later run clicks it twice, and none clicks it after its anchor was
written. -/
theorem dispatch_death_contained {projectDir : PyStr} {s : Advisor}
    (hs : (Advisor.machine projectDir).Reachable s)
    (h : dispatchDies s.ledger id now url authority token point = .ok l') :
    (∀ j, j ≠ id → l'.request? j = s.ledger.request? j) ∧
    (∀ calls : List (PyStr × Nat × Operation), (∀ call ∈ calls, call.1 ≠ id) →
      answers l' calls = answers s.ledger calls) ∧
    ((∀ written, point ≠ .anchored written) →
      (s.ledger.open = .ok s.ledger → l'.open = .ok l') ∧
      ∃ row, getRequest l' id = .ok row ∧ ∀ reason n now,
        validateText reason "abandon reason" 4096 = .ok n →
        assertNoSecret reason "abandon reason" = .ok () →
        ∃ r l₁, abandon l' id reason true now = .ok (r, l₁) ∧ r.state.terminal = true) ∧
    ∀ t later, (Advisor.machine projectDir).History (fun _ _ => True) (t :: later) →
      s.step (.die id now url authority token point) ∈ t :: later →
      t.clicked.count id ≤ 1 ∧ (point ≠ .beforeAnchor → id ∉ t.clicked) ∧
      ∀ written, point = .anchored written → ∀ (op : Operation) now,
        ∃ e, op.run t.ledger id now = .error e := by
  have hsafe := Advisor.safe_of_reachable hs
  have hc := hsafe.ledger
  obtain ⟨old, hold, hauth, hlin, hdeath, hread⟩ := dispatchDies_ok h
  obtain ⟨hmem, hid⟩ := getInTx_mem hold
  have hrun : (Event.die id now url authority token point).run s.ledger = .ok (l', []) := by
    change (dispatchDies s.ledger id now url authority token point).map (·, []) = _
    rw [h]
    rfl
  have hc' : l'.Coherent := (run_step hc hrun).coherent hc
  have hstep : s.step (.die id now url authority token point) = ⟨l', s.clicked⟩ := by
    unfold Advisor.step
    rw [hrun]
    exact congrArg (Advisor.mk l') (List.append_nil _)
  have hnot : id ∉ s.clicked := by
    intro hm
    obtain ⟨row, hrow, hrid, _, hna⟩ := hsafe.spent id hm
    exact hna (hc.same hrow hmem (hrid.trans hid.symm) ▸ hauth)
  have hal : s.ledger.Alike id l' := hid ▸ hdeath.alike hc hmem hauth
  refine ⟨hal.request?, ?_, ?_, ?_⟩
  · intro calls hcalls
    exact answers_alike hal hc ⟨old, (getInTx_ok.mp hold).2.1, hauth⟩ hcalls
  · intro hp
    exact ⟨fun hopen => hdeath.opens hc hc' hp hopen (hid.symm ▸ hread),
      hdeath.ends hc hc' hold hauth hlin hp hread⟩
  · intro t later ht hu
    rw [hstep] at hu
    refine ⟨List.nodup_iff_count_le_one.mp (Advisor.safe_of_reachable ht.reachable).clicked id, ?_, ?_⟩
    · intro hp
      refine Advisor.never_clicked ht hu hnot ?_
      cases hdeath with
      | beforeAnchor => exact (hp rfl).elim
      | anchored => exact ⟨old, hmem, hid, .inl (stranded_of_torn (getInTx_self hold) hauth)⟩
      | @committed tokenSha256 raw now =>
        refine ⟨old.dispatched tokenSha256 raw now, Rows.mem_set_self hmem rfl, hid, .inr ?_⟩
        exact ⟨by simp [Request.dispatched], by simp [Request.dispatched]⟩
    · rintro written rfl op now
      cases hdeath with
      | anchored =>
        rw [← hid]
        exact Advisor.stranded_refused ht hu hmem (stranded_of_torn (getInTx_self hold) hauth) op now

end Deaths

section Anchors

/-- The text of an anchor, field by field. -/
theorem anchorText_eq (row : Request) (t : PyStr) : anchorText row t = encodeUtf8 (
    "\x7b\"authorization_scope_sha256\":".toList ++
      (optText row.authorizationScopeSha256).dumps (Json.compact false true) ++
    ",\"authorized_ns\":".toList ++ (optNat row.authorizedNs).dumps (Json.compact false true) ++
    ",\"binding_sha256\":".toList ++ Json.quote false row.bindingSha256 ++
    ",\"pre_click_token_sha256\":".toList ++ Json.quote false t ++
    ",\"prompt_sha256\":".toList ++ Json.quote false row.promptSha256 ++
    ",\"request_id\":".toList ++ Json.quote false row.requestId ++
    ",\"schema_version\":1\x7d".toList) ++ [10] := by
  unfold anchorText Json.preimage
  refine congrArg (fun text => encodeUtf8 text ++ [10]) ?_
  simp [Json.dumps, Json.dumpsFields, Json.compact, Json.sortByKey, Json.strLe, joinWith, Json.quote,
    Json.escapeChar, Json.intText, natText, List.insertionSort, List.orderedInsert]
  rfl

theorem plain_char {c : Char} (h : isHex c = true ∨ c = '-') :
    Json.escapeChar false c = [c] ∧ c.toNat < 0x80 := by
  rcases h with h | rfl
  · have hb : (48 ≤ c.toNat ∧ c.toNat ≤ 57) ∨ (97 ≤ c.toNat ∧ c.toNat ≤ 102) := by
      simpa [isHex, Char.le_def, UInt32.le_iff_toNat_le] using h
    have hq : c ≠ '"' := by rintro rfl; simp at hb
    have hs : c ≠ '\\' := by rintro rfl; simp at hb
    refine ⟨?_, by omega⟩
    unfold Json.escapeChar
    simp only [hq, hs, if_false, Bool.not_false, Bool.true_or, if_true]
    split_ifs <;> first | omega | rfl
  · exact ⟨by decide, by decide⟩

theorem utf8Length_quote {s : PyStr} (h : ∀ c ∈ s, isHex c = true ∨ c = '-') :
    utf8Length (Json.quote false s) = s.length + 2 := by
  have hp : s.flatMap (Json.escapeChar false) = s := by
    induction s with
    | nil => rfl
    | cons c s ih =>
      rw [List.flatMap_cons, (plain_char (h c List.mem_cons_self)).1,
        ih fun d hd => h d (List.mem_cons_of_mem _ hd)]
      rfl
  have hl : utf8Length s = s.length := by
    clear hp
    induction s with
    | nil => rfl
    | cons c s ih =>
      rw [utf8Length_cons_ascii (plain_char (h c List.mem_cons_self)).2,
        ih fun d hd => h d (List.mem_cons_of_mem _ hd), List.length_cons]
  rw [Json.quote, hp, utf8Length_append, utf8Length_cons_ascii (by decide), hl]
  rfl

theorem utf8Length_quote_sha256 {s : PyStr} (h : isSha256 s = true) :
    utf8Length (Json.quote false s) = 66 := by
  unfold isSha256 isHexOf at h
  simp only [Bool.and_eq_true, beq_iff_eq, List.all_eq_true] at h
  rw [utf8Length_quote fun c hc => .inl (h.2 c hc), h.1]

/-- The anchor of a request of a canonical id is short enough to be written. -/
theorem dispatchAnchorRaw_ok {row : Request} {t scope : PyStr} {ns : Nat} (id : Uuid)
    (hid : row.requestId = id.text) (hb : isSha256 row.bindingSha256 = true)
    (hp : isSha256 row.promptSha256 = true) (ht : isSha256 t = true)
    (hscope : row.authorizationScopeSha256 = some scope) (hs : isSha256 scope = true)
    (hns : row.authorizedNs = some ns) (hlen : utf8Length (natText ns) ≤ 3000) :
    dispatchAnchorRaw row t = .ok (anchorText row t) := by
  unfold dispatchAnchorRaw
  rw [if_neg]
  have hint : (optNat (some ns)).dumps (Json.compact false true) = natText ns := by
    simp [optNat, Json.dumps, Json.intText]
  have hq : (optText (some scope)).dumps (Json.compact false true) = Json.quote false scope := by
    simp [optText, Json.dumps, Json.compact]
  have hidlen : utf8Length (Json.quote false row.requestId) = 38 := by
    rw [hid, utf8Length_quote id.shape.2, id.shape.1]
  rw [anchorText_eq, List.length_append, hscope, hns, hint, hq]
  change ¬ 4096 < utf8Length _ + _
  simp only [utf8Length_append, hidlen, utf8Length_quote_sha256 hs,
    utf8Length_quote_sha256 hb, utf8Length_quote_sha256 ht, utf8Length_quote_sha256 hp]
  have h1 : utf8Length "\x7b\"authorization_scope_sha256\":".toList = 30 := by decide
  have h2 : utf8Length ",\"authorized_ns\":".toList = 17 := by decide
  have h3 : utf8Length ",\"binding_sha256\":".toList = 18 := by decide
  have h4 : utf8Length ",\"pre_click_token_sha256\":".toList = 26 := by decide
  have h5 : utf8Length ",\"prompt_sha256\":".toList = 17 := by decide
  have h6 : utf8Length ",\"request_id\":".toList = 14 := by decide
  have h7 : utf8Length ",\"schema_version\":1\x7d".toList = 20 := by decide
  rw [h1, h2, h3, h4, h5, h6, h7]
  simp only [List.length_singleton]
  omega

end Anchors

/-- No text contains a credential or a control signal. -/
@[reducible] def plainPatterns : Patterns := ⟨fun _ => [], fun _ => [], fun _ => false⟩

/-- The same, with the URLs of conversations. -/
@[reducible] def plainUrls (isUrl : PyStr → Bool) : Patterns := ⟨fun _ => [], fun _ => [], isUrl⟩

def askArgs : PrepareArgs :=
  ⟨"p".toList, none, none, "c".toList, none, some (List.replicate 16 '0'),
    some (List.replicate 64 '0'), some 1, none, none⟩

def vouched : Authority := ⟨.ok (), .ok ()⟩

def askId : Uuid := ⟨"00000000-0000-4000-8000-000000000000".toList, by decide⟩

def askCheckpoint : PyStr × PyStr × Nat := (List.replicate 16 '0', List.replicate 64 '0', 1)

def asked : Request := askArgs.row [] askCheckpoint none askId.text 0

def askAuthorized : Request :=
  { asked with
    state := .authorized
    authorizationScope := some "s".toList
    authorizationScopeSha256 := some (sha256Text "s".toList)
    authorizedNs := some 0 }

/-- A ledger of one request. -/
def Ledger.single (row : Request) : Ledger := ⟨[], [row], fun _ => none⟩

theorem single_read {row : Request} (hid : row.requestId = askId.text)
    (hi : (Ledger.single row).assertIntegrity row = .ok ())
    (ha : (Ledger.single row).assertAnchor row = .ok ()) :
    (Ledger.single row).getInTx askId.text = .ok row := by
  refine getInTx_ok.mpr ⟨by decide, ?_, hi, ha⟩
  simp [Ledger.request?, Ledger.single, hid]

theorem asked_integrity : (Ledger.single asked).assertIntegrity asked = .ok () := by
  unfold Ledger.assertIntegrity
  rw [if_neg, if_neg, if_neg]
  · rfl
  · exact not_not.mpr rfl
  · decide
  · simp [asked, PrepareArgs.row]

theorem asked_anchor : (Ledger.single asked).assertAnchor asked = .ok () :=
  assertAnchor_ok.mpr (.inl ⟨rfl, rfl, rfl, rfl⟩)

theorem asked_prepared (isUrl : PyStr → Bool) :
    @prepareInsert (plainUrls isUrl) ⟨[], [], fun _ => none⟩ askArgs vouched askId 0 =
      .ok (asked, .single asked) := by
  have hread := single_read rfl asked_integrity asked_anchor
  have hv : @PrepareArgs.validate (plainUrls isUrl) askArgs = .ok 1 := by rfl
  have hcp : askArgs.validateCheckpoint (.ok ()) = .ok askCheckpoint := by rfl
  unfold prepareInsert
  refine bind_ok.mpr ⟨1, hv, bind_ok.mpr ⟨(), rfl, bind_ok.mpr ⟨askCheckpoint, hcp, ?_⟩⟩⟩
  refine bind_ok.mpr ⟨none, rfl, ?_⟩
  refine bind_ok.mpr ⟨none, rfl, ?_⟩
  exact bind_ok.mpr ⟨asked, hread, rfl⟩

theorem authorized_integrity : (Ledger.single askAuthorized).assertIntegrity askAuthorized = .ok () :=
  asked_integrity

theorem authorized_anchor : (Ledger.single askAuthorized).assertAnchor askAuthorized = .ok () :=
  assertAnchor_ok.mpr (.inl ⟨rfl, rfl, rfl, rfl⟩)

/-- The row that an authorisation leaves. -/
def Request.authorized (row : Request) (scope : PyStr) (now : Nat) : Request :=
  { row with
    state := .authorized
    authorizationScope := some scope
    authorizationScopeSha256 := some (sha256Text scope)
    authorizedNs := some now
    updatedNs := now }

theorem authorize_prepared [Patterns] {l : Ledger} {id scope : PyStr} {row r : Request} {n now : Nat}
    (hg : l.getInTx id = .ok row) (hl : l.assertLineage row true = .ok ())
    (hs : row.state = .prepared) (hsha : isSha256 row.promptSha256 = true)
    (htext : validateText scope "authorization scope" 4096 = .ok n)
    (hsecret : assertNoSecret scope "authorization scope" = .ok ())
    (hr : (l.set (row.authorized scope now)).getInTx id = .ok r) :
    authorize l id row.promptSha256 scope true now = .ok (r, l.set (row.authorized scope now)) := by
  unfold authorize
  refine bind_ok.mpr ⟨(), ?_, bind_ok.mpr ⟨n, htext, bind_ok.mpr ⟨(), hsecret, ?_⟩⟩⟩
  · unfold validateHash
    rw [if_pos hsha]
  · refine transact_ok.mpr ⟨row, hg, .inr ⟨row.authorized scope now, ?_, hr, rfl⟩⟩
    simp [hl, hs, pure, Except.pure, Bind.bind, Except.bind, Request.authorized]

theorem asked_authorized (isUrl : PyStr → Bool) : @authorize (plainUrls isUrl) (.single asked) askId.text
    (sha256Text "p".toList) "s".toList true 0 = .ok (askAuthorized, .single askAuthorized) := by
  have hset : (Ledger.single asked).set (asked.authorized "s".toList 0) = .single askAuthorized := by
    simp [Ledger.set, Ledger.single, Rows.set, Rows.update, askAuthorized]
    rfl
  have hread : ((Ledger.single asked).set (asked.authorized "s".toList 0)).getInTx askId.text =
      .ok askAuthorized := by
    rw [hset]
    exact single_read rfl authorized_integrity authorized_anchor
  rw [← hset]
  exact @authorize_prepared (plainUrls isUrl) _ _ _ _ _ _ _ (single_read rfl asked_integrity asked_anchor) rfl rfl
    (isSha256_sha256Text _) (rfl : validateText "s".toList "authorization scope" 4096 = .ok 1) rfl hread

def askToken : Uuid := ⟨"00000000-0000-4000-8000-000000000001".toList, by decide⟩

/-- The anchor that the dispatch of the request writes. -/
def askAnchor : List Nat := anchorText askAuthorized (sha256Text askToken.text)

theorem dispatchCas_authorized {l : Ledger} {id : PyStr} {row : Request} {token : Uuid} {raw : List Nat}
    (hg : l.getInTx id = .ok row) (hi : l.assertIntegrity row = .ok ())
    (hl : l.assertLineage row true = .ok ()) (hp : row.predecessor = none)
    (hs : row.state = .authorized) (hraw : dispatchAnchorRaw row (sha256Text token.text) = .ok raw) :
    dispatchCas l id none vouched token = .ok (row, raw) := by
  have hv : validateDispatch l none row = .ok () := by
    unfold validateDispatch
    rw [hi, hl, hp]
    rfl
  unfold dispatchCas
  refine bind_ok.mpr ⟨(), rfl, bind_ok.mpr ⟨(), rfl, bind_ok.mpr ⟨row, hg, bind_ok.mpr ⟨(), hv, ?_⟩⟩⟩⟩
  rw [hs, hraw]
  rfl

theorem binding_isSha256 {a : PrepareArgs} {projectDir : PyStr}
    {checkpoint : Option (PyStr × PyStr × Nat)} : isSha256 (a.binding projectDir checkpoint) = true := by
  unfold PrepareArgs.binding bindingSha256
  exact isSha256_sha256Bytes _

theorem asked_cas : dispatchCas (.single askAuthorized) askId.text none vouched askToken =
    .ok (askAuthorized, askAnchor) := by
  refine dispatchCas_authorized (single_read rfl authorized_integrity authorized_anchor)
    authorized_integrity rfl rfl rfl ?_
  refine dispatchAnchorRaw_ok askId rfl ?_ (isSha256_sha256Text _) (isSha256_sha256Text _) rfl
    (isSha256_sha256Text _) rfl (by decide)
  exact binding_isSha256

/-- The request prepared and authorised. -/
def askState : Advisor := ⟨.single askAuthorized, []⟩

section Events
variable [Patterns] {s : Advisor} {l l' : Ledger} {clicked : List PyStr} {out : Request × Ledger}

theorem Advisor.step_of_run {event : Event} (h : event.run s.ledger = .ok (l', clicked)) :
    s.step event = ⟨l', s.clicked ++ clicked⟩ := by
  unfold Advisor.step
  rw [h]

theorem run_prepare {a : PrepareArgs} {authority : Authority} {id : Uuid} {now : Nat}
    (h : prepareInsert l a authority id now = .ok out) :
    (Event.prepare a authority id now).run l = .ok (out.2, []) := map_ok.mpr ⟨out, h, rfl⟩

theorem run_authorize {id sha256 scope : PyStr} {acknowledged : Bool} {now : Nat}
    (h : authorize l id sha256 scope acknowledged now = .ok out) :
    (Event.operate id now (.authorize sha256 scope acknowledged)).run l = .ok (out.2, []) :=
  map_ok.mpr ⟨out, h, rfl⟩

theorem run_die {id : PyStr} {now : Nat} {url : Option PyStr} {authority : Authority} {token : Uuid}
    {point : CrashPoint} (h : dispatchDies l id now url authority token point = .ok l') :
    (Event.die id now url authority token point).run l = .ok (l', []) := map_ok.mpr ⟨l', h, rfl⟩

end Events

theorem asked_steps (isUrl : PyStr → Bool) :
    (@Advisor.step (plainUrls isUrl) (Advisor.initial []) (.prepare askArgs vouched askId 0) =
      ⟨.single asked, []⟩) ∧
    @Advisor.step (plainUrls isUrl) ⟨.single asked, []⟩
      (.operate askId.text 0 (.authorize (sha256Text "p".toList) "s".toList true)) = askState :=
  ⟨@Advisor.step_of_run (plainUrls isUrl) (Advisor.initial []) _ _ _
      (@run_prepare (plainUrls isUrl) _ _ _ _ _ _ (asked_prepared isUrl)),
    @Advisor.step_of_run (plainUrls isUrl) ⟨.single asked, []⟩ _ _ _
      (@run_authorize (plainUrls isUrl) _ _ _ _ _ _ _ (asked_authorized isUrl))⟩

theorem askState_history : (@Advisor.machine plainPatterns []).History (fun _ _ => True)
    [askState, ⟨.single asked, []⟩, Advisor.initial []] := by
  obtain ⟨h1, h2⟩ := asked_steps fun _ => false
  exact .step (.step (.start rfl) trivial h1.symm) trivial h2.symm

theorem writeAnchorOnce_none {l : Ledger} {id : PyStr} {raw : List Nat} (h : l.anchors id = none) :
    l.writeAnchorOnce id raw = .ok (sha256Bytes raw, l.anchored id raw) := by
  unfold Ledger.writeAnchorOnce
  rw [h]
  rfl

theorem ask_dies : @dispatchDies plainPatterns askState.ledger askId.text 0 none vouched askToken
    (.anchored 0) = .ok (askState.ledger.anchored askId.text []) := by
  have hw : askState.ledger.writeAnchorOnce askId.text (askAnchor.take 0) =
      .ok (sha256Bytes [], askState.ledger.anchored askId.text []) := by
    rw [List.take_zero]
    exact writeAnchorOnce_none rfl
  exact bind_ok.mpr ⟨_, asked_cas, bind_ok.mpr ⟨_, hw, rfl⟩⟩

/-- A dispatch that died after the creation of its anchor leaves a ledger on which no broker can be
opened, and a request that cannot be read. -/
theorem torn_dispatch_strands :
    (@Advisor.machine plainPatterns []).Reachable askState ∧
    @dispatchDies plainPatterns askState.ledger askId.text 0 none vouched askToken (.anchored 0) =
      .ok (askState.ledger.anchored askId.text []) ∧
    (askState.ledger.anchored askId.text []).open =
      .error (.conflict "dispatch anchor exists without a committed pre-click token") ∧
    getRequest (askState.ledger.anchored askId.text []) askId.text =
      .error (.conflict "advisor dispatch anchor exists without a pre-click token") := by
  refine ⟨⟨_, askState_history⟩, ask_dies, rfl, ?_⟩
  have hread : (askState.ledger.anchored askId.text []).getInTx askId.text =
      .error (.conflict "advisor dispatch anchor exists without a pre-click token") := by
    have hf : (askState.ledger.anchored askId.text []).request? askId.text = some askAuthorized := by
      simp [Ledger.request?, Ledger.anchored, askState, Ledger.single, askAuthorized, asked,
        PrepareArgs.row]
    have hi : (askState.ledger.anchored askId.text []).assertIntegrity askAuthorized = .ok () :=
      (assertIntegrity_congr rfl).trans authorized_integrity
    unfold Ledger.getInTx
    rw [hf]
    dsimp only
    rw [hi]
    rfl
  unfold getRequest
  rw [hread]
  rfl

/-- The contained death of the request's dispatch. -/
theorem dispatch_death_contained_ask : ¬ ∃ (op : Operation) (now : Nat) (out : Request × Ledger),
    @Operation.run plainPatterns (askState.ledger.anchored askId.text []) askId.text now op = .ok out := by
  rintro ⟨op, now, out, hout⟩
  have h := (@dispatch_death_contained plainPatterns _ _ _ _ _ _ _ _ _ ⟨_, askState_history⟩ ask_dies).2.2.2
  have hstep := @Advisor.step_of_run plainPatterns askState _ _ _
    (@run_die plainPatterns _ _ _ _ _ _ _ _ ask_dies)
  rw [hstep] at h
  obtain ⟨e, he⟩ := (h _ _ (.step askState_history trivial hstep.symm) List.mem_cons_self).2.2 0 rfl op now
  rw [he] at hout
  cases hout

end Danus.Strategy
