import Danus.Integrations.GatedSearch

/-! What a gated search can return: nothing at or after the cutoff, and not the source paper under
another spelling of its id. -/
namespace Danus.Integrations
open Python

/-- The characters of an id in lower case, before its number. -/
def isIdChar (c : Char) : Bool :=
  ('a' ≤ c && c ≤ 'z') || ('0' ≤ c && c ≤ '9') || c == '.' || c == '-' || c == '/'

def isAsciiDigit (c : Char) : Bool := '0' ≤ c && c ≤ '9'

/-- An id in lower case and without version: `1707.00001`, `math/0605123` or `math.nt/0605123`. -/
structure PaperId (core : PyStr) : Prop where
  shape : ∃ head sep number, core = head ++ sep :: number ∧ (sep = '.' ∨ sep = '/') ∧ head ≠ [] ∧
    number ≠ [] ∧ (∀ c ∈ head, isIdChar c = true) ∧ ∀ c ∈ number, isAsciiDigit c = true

/-- The id with white space around it, perhaps an `arXiv:` prefix and a version, in any case. -/
def Spells (core s : PyStr) : Prop :=
  ∃ before prefix_ gap body version after,
    s = before ++ (prefix_ ++ (gap ++ (body ++ (version ++ after)))) ∧
    (∀ c ∈ before, isSpace c = true) ∧ (∀ c ∈ gap, isSpace c = true) ∧
    (∀ c ∈ after, isSpace c = true) ∧
    ((prefix_ = [] ∧ gap = []) ∨
      ((∀ c ∈ prefix_, c.toNat < 0x80) ∧ prefix_.map Char.toLower = "arxiv:".toList)) ∧
    ((∀ c ∈ body, c.toNat < 0x80) ∧ body.map Char.toLower = core) ∧
    (version = [] ∨ ∃ v digits, version = v :: digits ∧ (v = 'v' ∨ v = 'V') ∧ digits ≠ [] ∧
      ∀ c ∈ digits, isAsciiDigit c = true)

section Characters
variable {c : Char}

theorem toNat_of_isAsciiDigit (h : isAsciiDigit c = true) : 48 ≤ c.toNat ∧ c.toNat ≤ 57 := by
  simp only [isAsciiDigit, Bool.and_eq_true, decide_eq_true_eq] at h
  exact h

/-- Only the capitals of ASCII have another lower case. -/
theorem toLower_eq (h : ¬ (65 ≤ c.toNat ∧ c.toNat ≤ 90)) : c.toLower = c := by
  delta Char.toLower
  rw [dif_neg]
  intro hu
  exact h ⟨hu.1, hu.2⟩

theorem toNat_of_isSpace (h : isSpace c = true) : c.toNat ≤ 32 ∨ 0x85 ≤ c.toNat := by
  simp only [isSpace, Bool.or_eq_true, Bool.and_eq_true, decide_eq_true_eq, beq_iff_eq] at h
  omega

theorem toLower_of_isSpace (h : isSpace c = true) : c.toLower = c := by
  have hn := toNat_of_isSpace h
  exact toLower_eq (by omega)

theorem toLower_of_isAsciiDigit (h : isAsciiDigit c = true) : c.toLower = c := by
  have hn := toNat_of_isAsciiDigit h
  exact toLower_eq (by omega)

theorem toNat_of_isIdChar (h : isIdChar c = true) : 45 ≤ c.toNat ∧ c.toNat ≤ 122 ∧ c.toNat ≠ 58 := by
  simp only [isIdChar, Bool.or_eq_true, Bool.and_eq_true, decide_eq_true_eq, beq_iff_eq] at h
  rcases h with (((h | h) | h) | h) | h
  · have h1 : 97 ≤ c.toNat := h.1
    have h2 : c.toNat ≤ 122 := h.2
    omega
  · have h1 : 48 ≤ c.toNat := h.1
    have h2 : c.toNat ≤ 57 := h.2
    omega
  · rw [h]
    decide
  · rw [h]
    decide
  · rw [h]
    decide

theorem isIdChar_of_isAsciiDigit (h : isAsciiDigit c = true) : isIdChar c = true := by
  unfold isAsciiDigit at h
  simp [isIdChar, h]

/-- A character that is one of an id in lower case is no space. -/
theorem not_isSpace_of_toLower (h : isIdChar c.toLower = true) : isSpace c = false := by
  cases hs : isSpace c with
  | false => rfl
  | true =>
    rw [toLower_of_isSpace hs] at h
    have h1 := toNat_of_isIdChar h
    have h2 := toNat_of_isSpace hs
    omega

end Characters

section Texts
variable {s t before after : PyStr}

theorem map_toLower_eq (h : ∀ c ∈ s, c.toLower = c) : s.map Char.toLower = s :=
  (List.map_congr_left h).trans (List.map_id' s)

theorem span_stop {p : Char → Bool} {c : Char} (hs : ∀ a ∈ s, p a = true) (hc : p c = false) :
    (s ++ c :: t).span p = (s, c :: t) := by
  rw [List.span_eq_takeWhile_dropWhile, List.takeWhile_append_of_pos hs, List.dropWhile_append_of_pos hs,
    List.takeWhile_cons_of_neg (by simp [hc]), List.dropWhile_cons_of_neg (by simp [hc]), List.append_nil]

/-- Stripping takes white space off both ends, and no more. -/
theorem strip_padded (hb : ∀ c ∈ before, isSpace c = true) (ha : ∀ c ∈ after, isSpace c = true)
    (hl : ∀ c ∈ t.head?, isSpace c = false) (hr : ∀ c ∈ t.getLast?, isSpace c = false) :
    strip (before ++ (t ++ after)) = t := by
  induction before with
  | cons c before ih =>
    rw [List.cons_append, strip_cons_space (hb c List.mem_cons_self)]
    exact ih fun d hd => hb d (List.mem_cons_of_mem _ hd)
  | nil =>
    rw [List.nil_append]
    induction after using List.reverseRecOn with
    | nil =>
      rw [List.append_nil]
      exact strip_eq_self hl hr
    | append_singleton after c ih =>
      rw [← List.append_assoc, strip_append_space (ha c (by simp))]
      exact ih fun d hd => ha d (List.mem_append_left _ hd)

end Texts

variable {core s : PyStr}

theorem PaperId.chars (h : PaperId core) : ∀ c ∈ core, isIdChar c = true := by
  obtain ⟨head, sep, number, rfl, hsep, _, _, hhead, hnumber⟩ := h.shape
  intro c hc
  rcases List.mem_append.mp hc with hc | hc
  · exact hhead c hc
  · rcases List.mem_cons.mp hc with rfl | hc
    · rcases hsep with rfl | rfl
      · rfl
      · rfl
    · exact isIdChar_of_isAsciiDigit (hnumber c hc)

/-- A text of an id's characters has no `arxiv:` in front. -/
theorem stripArxiv_chars (h : ∀ c ∈ s, isIdChar c = true) : stripArxiv s = s := by
  rw [stripArxiv, if_neg]
  rintro ⟨rest, hrest⟩
  have hc : ':' ∈ s := by
    rw [← hrest]
    exact List.mem_append_left _ (by decide)
  exact absurd (h ':' hc) (by decide)

section Safety
variable [Tables]

theorem isDecimal_ascii {c : Char} (hc : c.toNat < 0x80) :
    isDecimal c = decide (48 ≤ c.toNat ∧ c.toNat ≤ 57) := by
  rw [isDecimal, Tables.digit_ascii c hc]
  by_cases h : 48 ≤ c.toNat ∧ c.toNat ≤ 57
  · simp [h]
  · simp [h]

theorem isDecimal_of_isAsciiDigit {c : Char} (h : isAsciiDigit c = true) : isDecimal c = true := by
  have hn := toNat_of_isAsciiDigit h
  rw [isDecimal_ascii (by omega)]
  exact decide_eq_true hn

/-- `stripVersion` takes a version off an id. -/
theorem stripVersion_version (core : PyStr) {digits : PyStr} (hne : digits ≠ [])
    (hd : ∀ c ∈ digits, isAsciiDigit c = true) : stripVersion (core ++ 'v' :: digits) = core := by
  have hspan : (core ++ 'v' :: digits).reverse.span isDecimal = (digits.reverse, 'v' :: core.reverse) := by
    rw [List.reverse_append, List.reverse_cons, List.append_assoc, List.singleton_append]
    refine span_stop (fun c hc => ?_) (isDecimal_ascii (by decide))
    exact isDecimal_of_isAsciiDigit (hd c (List.mem_reverse.mp hc))
  simp only [stripVersion, hspan, List.reverse_eq_nil_iff, if_neg hne, List.reverse_reverse]

/-- `stripVersion` leaves an id without version alone. -/
theorem stripVersion_core (h : PaperId core) : stripVersion core = core := by
  obtain ⟨head, sep, number, rfl, hsep, _, _, _, hnumber⟩ := h.shape
  have hspan : (head ++ sep :: number).reverse.span isDecimal = (number.reverse, sep :: head.reverse) := by
    rw [List.reverse_append, List.reverse_cons, List.append_assoc, List.singleton_append]
    refine span_stop (fun c hc => ?_) ?_
    · exact isDecimal_of_isAsciiDigit (hnumber c (List.mem_reverse.mp hc))
    · rcases hsep with rfl | rfl
      · exact isDecimal_ascii (by decide)
      · exact isDecimal_ascii (by decide)
  rcases hsep with rfl | rfl
  · simp only [stripVersion, hspan]
    rfl
  · simp only [stripVersion, hspan]
    rfl

/-- The version of a spelling in lower case, and what is left without it. -/
theorem stripVersion_spelled (hcore : PaperId core) {version : PyStr}
    (hv : version = [] ∨ ∃ v digits, version = v :: digits ∧ (v = 'v' ∨ v = 'V') ∧ digits ≠ [] ∧
      ∀ c ∈ digits, isAsciiDigit c = true) :
    (∀ c ∈ version.map Char.toLower, isIdChar c = true) ∧ (∀ c ∈ version, c.toNat < 0x80) ∧
      stripVersion (core ++ version.map Char.toLower) = core := by
  rcases hv with rfl | ⟨v, digits, rfl, hv, hne, hd⟩
  · refine ⟨by simp, by simp, ?_⟩
    rw [List.map_nil, List.append_nil]
    exact stripVersion_core hcore
  · have hlow : (v :: digits).map Char.toLower = 'v' :: digits := by
      rw [List.map_cons, map_toLower_eq fun c hc => toLower_of_isAsciiDigit (hd c hc)]
      rcases hv with rfl | rfl
      · rfl
      · rfl
    rw [hlow]
    refine ⟨?_, ?_, stripVersion_version core hne hd⟩
    · intro c hc
      rcases List.mem_cons.mp hc with rfl | hc
      · rfl
      · exact isIdChar_of_isAsciiDigit (hd c hc)
    · intro c hc
      rcases List.mem_cons.mp hc with rfl | hc
      · rcases hv with rfl | rfl
        · decide
        · decide
      · have hn := toNat_of_isAsciiDigit (hd c hc)
        omega

/-- All spellings of an id are one after normalising. -/
theorem normalizeId_of_spells (hcore : PaperId core) (h : Spells core s) : normalizeId s = core := by
  obtain ⟨before, pre, gap, body, version, after, rfl, hbefore, hgap, hafter, hpre, ⟨hbody, hlow⟩,
    hversion⟩ := h
  obtain ⟨hvchars, hvascii, hstrip⟩ := stripVersion_spelled hcore hversion
  have hchars : ∀ c ∈ core ++ version.map Char.toLower, isIdChar c = true := by
    intro c hc
    rcases List.mem_append.mp hc with hc | hc
    · exact hcore.chars c hc
    · exact hvchars c hc
  have hne : core ++ version.map Char.toLower ≠ [] := by
    obtain ⟨head, sep, number, rfl, _⟩ := hcore.shape
    simp
  have hgaplow : gap.map Char.toLower = gap :=
    map_toLower_eq fun c hc => toLower_of_isSpace (hgap c hc)
  generalize hmid : pre ++ (gap ++ (body ++ version)) = mid
  have hmidlow : mid.map Char.toLower =
      pre.map Char.toLower ++ (gap ++ (core ++ version.map Char.toLower)) := by
    rw [← hmid, List.map_append, List.map_append, List.map_append, hgaplow, hlow]
  have hhead : ∀ c ∈ mid.head?, isSpace c = false := by
    intro c hc
    refine not_isSpace_of_toLower ?_
    have hc' : c.toLower ∈ (mid.map Char.toLower).head? := by
      rw [List.head?_map]
      exact Option.mem_map_of_mem _ hc
    rw [hmidlow] at hc'
    rcases hpre with ⟨rfl, rfl⟩ | ⟨_, hprelow⟩
    · exact hchars _ (List.mem_of_mem_head? hc')
    · rw [hprelow] at hc'
      have ha : 'a' = c.toLower := Option.some.inj hc'
      rw [← ha]
      rfl
  have hlast : ∀ c ∈ mid.getLast?, isSpace c = false := by
    intro c hc
    refine not_isSpace_of_toLower ?_
    have hc' : c.toLower ∈ (mid.map Char.toLower).getLast? := by
      rw [List.getLast?_map]
      exact Option.mem_map_of_mem _ hc
    rw [hmidlow, ← List.append_assoc, List.getLast?_append_of_ne_nil _ hne] at hc'
    exact hchars _ (List.mem_of_getLast? hc')
  have hascii : ∀ c ∈ mid, c.toNat < 0x80 ∨ isSpace c = true := by
    intro c hc
    rw [← hmid] at hc
    rcases List.mem_append.mp hc with hc | hc
    · rcases hpre with ⟨rfl, _⟩ | ⟨hp, _⟩
      · cases hc
      · exact .inl (hp c hc)
    · rcases List.mem_append.mp hc with hc | hc
      · exact .inr (hgap c hc)
      · rcases List.mem_append.mp hc with hc | hc
        · exact .inl (hbody c hc)
        · exact .inl (hvascii c hc)
  have hall : before ++ (pre ++ (gap ++ (body ++ (version ++ after)))) = before ++ (mid ++ after) := by
    rw [← hmid]
    simp only [List.append_assoc]
  have harxiv : stripArxiv (mid.map Char.toLower) = core ++ version.map Char.toLower := by
    rw [hmidlow]
    rcases hpre with ⟨rfl, rfl⟩ | ⟨_, hprelow⟩
    · exact stripArxiv_chars hchars
    · -- the prefix goes, and the white space behind it
      rw [hprelow, stripArxiv, if_pos (List.prefix_append _ _)]
      have hdrop : List.drop 6 ("arxiv:".toList ++ (gap ++ (core ++ version.map Char.toLower))) =
        gap ++ (core ++ version.map Char.toLower) := rfl
      rw [hdrop, List.dropWhile_append_of_pos hgap]
      obtain ⟨c, cs, hcs⟩ := List.exists_cons_of_ne_nil hne
      rw [hcs]
      refine List.dropWhile_cons_of_neg ?_
      have hc : isIdChar c = true := hchars c (hcs ▸ List.mem_cons_self)
      have hsp : isSpace c = false := by
        cases hs : isSpace c with
        | false => rfl
        | true =>
          have h1 := toNat_of_isSpace hs
          have h2 := toNat_of_isIdChar hc
          omega
      simp [hsp]
  rw [hall, normalizeId, strip_padded hbefore hafter hhead hlast, Tables.lower_ascii mid hascii, harxiv,
    hstrip]

section Gates
variable {cfg : GateConfig} {cutoff : Nat} {item : Result} {raw : List Result} {query : PyStr}
  {numResults : Option Int} {response : Response}

omit [Tables] in
theorem mem_gate {reason : Result → Option DropReason} (h : item ∈ (gate reason raw).1) :
    reason item = none := by
  have hf := (List.mem_filter.mp h).2
  simpa using hf

/-- What the arXiv gate lets through is dated before the cutoff and is no source paper. -/
theorem arxivReason_none (h : arxivReason cfg cutoff item = none) :
    (∃ month, arxivMonth item.arxivId = some month ∧ month < cutoff) ∧
      (normalizeId item.arxivId = [] ∨ normalizeId item.arxivId ∉ cfg.sourceIds) := by
  simp only [arxivReason] at h
  split_ifs at h with hsource
  have hnot : normalizeId item.arxivId = [] ∨ normalizeId item.arxivId ∉ cfg.sourceIds := by
    by_contra hn
    rw [not_or, not_not] at hn
    exact hsource hn
  refine ⟨?_, hnot⟩
  cases hm : arxivMonth item.arxivId with
  | none =>
    rw [hm] at h
    cases h
  | some month =>
    rw [hm] at h
    by_cases hle : cutoff ≤ month
    · simp [hle] at h
    · exact ⟨month, rfl, by omega⟩

/-- What the year guard lets through is dated in a year before the cutoff's, or is a book without year. -/
theorem matlasReason_none (h : matlasReason cutoff item = none) :
    (∃ year, firstYear (strip ((item.provenance.map Provenance.year).getD [])) = some year ∧
      year < cutoff / 12) ∨
    (firstYear (strip ((item.provenance.map Provenance.year).getD [])) = none ∧
      Tables.lower (strip item.sourceType) = "book".toList) := by
  unfold matlasReason at h
  cases hy : firstYear (strip ((item.provenance.map Provenance.year).getD [])) with
  | none =>
    simp only [hy] at h
    refine .inr ⟨rfl, ?_⟩
    by_contra hn
    rw [if_neg hn] at h
    cases h
  | some year =>
    simp only [hy] at h
    by_cases hle : cutoff / 12 ≤ year
    · simp [hle] at h
    · exact .inl ⟨year, rfl, by omega⟩

/-- The items of the journals carry no arXiv id. -/
theorem arxivId_of_normalizeMatlasItem {fields : List (PyStr × Json)}
    (h : normalizeMatlasItem fields = .ok item) : item.arxivId = [] := by
  simp only [normalizeMatlasItem, bind, Except.bind, pure, Except.pure] at h
  repeat' split at h
  all_goals first | rfl | cases h
  all_goals rfl

omit [Tables] in
/-- Every fetched item is a normalised one. -/
theorem of_mem_fetch {normalizeItem : List (PyStr × Json) → Except PyStr Result} {notList : PyStr}
    (h : fetch normalizeItem notList response = .ok raw) (hi : item ∈ raw) :
    ∃ fields, normalizeItem fields = .ok item := by
  unfold fetch at h
  split at h
  · cases h
  · rename_i items
    generalize (items.take maxResults).filterMap _ = l at h
    induction l generalizing raw with
    | nil =>
      cases h
      cases hi
    | cons fields l ih =>
      rw [List.mapM_cons] at h
      cases hn : normalizeItem fields with
      | error e =>
        rw [hn] at h
        cases h
      | ok r =>
        rw [hn] at h
        cases hl : l.mapM normalizeItem with
        | error e =>
          simp only [hl] at h
          cases h
        | ok rs =>
          simp only [hl] at h
          cases h
          rcases List.mem_cons.mp hi with rfl | hi
          · exact ⟨fields, hn⟩
          · exact ih hi hl
  · cases h

omit [Tables] in
/-- A gate's results are items it was given. -/
theorem mem_of_gate {reason : Result → Option DropReason} (h : item ∈ (gate reason raw).1) : item ∈ raw :=
  List.mem_of_mem_filter h

theorem parseCutoff_nil : parseCutoff [] = none := rfl

/-- Where a cutoff is set, only the two gated modes return anything. -/
theorem mode_of_validate (hc : cfg.cutoff = some cutoff) (hv : cfg.validate = none)
    (hoff : cfg.mode ≠ "off".toList) : cfg.mode = "dated".toList ∨ cfg.mode = "strict".toList := by
  have heval : cfg.isEval = true := by
    cases hraw : cfg.cutoffRaw with
    | nil =>
      rw [GateConfig.cutoff, hraw, parseCutoff_nil] at hc
      cases hc
    | cons c cs => simp [GateConfig.isEval, hraw]
  unfold GateConfig.validate at hv
  split_ifs at hv with hmode _ hopen
  have hnopen : cfg.mode ≠ "open".toList := fun h => hopen ⟨heval, h⟩
  simp only [GateConfig.validModes, List.mem_cons, List.not_mem_nil, or_false] at hmode
  rcases hmode with h | h | h | h
  · exact (hnopen h).elim
  · exact .inr h
  · exact .inl h
  · exact (hoff h).elim

/-- Every result of a search with a cutoff went through the gate of its mode. -/
theorem mem_search (hc : cfg.cutoff = some cutoff)
    (hi : item ∈ (search cfg query numResults response).results) :
    (cfg.mode = "dated".toList ∧ arxivReason cfg cutoff item = none) ∨
      (cfg.mode = "strict".toList ∧ matlasReason cutoff item = none ∧ item.arxivId = []) := by
  unfold search at hi
  cases hv : cfg.validate with
  | some fatal =>
    simp only [hv, refusal] at hi
    cases hi
  | none =>
    have hq : strip query ≠ [] := by
      intro hq
      simp only [hv, if_pos hq, refusal] at hi
      cases hi
    have hoff : cfg.mode ≠ "off".toList := by
      intro hoff
      simp only [hv, if_neg hq, if_pos hoff, refusal] at hi
      cases hi
    have hmode := mode_of_validate hc hv hoff
    have hopen : cfg.mode ≠ "open".toList := by
      rcases hmode with h | h
      · rw [h]
        decide
      · rw [h]
        decide
    simp only [hv, if_neg hq, if_neg hoff, if_neg hopen, hc] at hi
    by_cases hstrict : cfg.mode = "strict".toList
    · simp only [if_pos hstrict] at hi
      cases hf : fetchMatlasAi response with
      | error e =>
        rw [hf] at hi
        cases hi
      | ok raw =>
        rw [hf] at hi
        have hg : item ∈ (gate (matlasReason cutoff) raw).1 := List.mem_of_mem_take hi
        obtain ⟨fields, hfields⟩ := of_mem_fetch hf (mem_of_gate hg)
        exact .inr ⟨hstrict, mem_gate hg, arxivId_of_normalizeMatlasItem hfields⟩
    · simp only [if_neg hstrict] at hi
      cases hf : fetchArxivIndex response with
      | error e =>
        rw [hf] at hi
        cases hi
      | ok raw =>
        rw [hf] at hi
        have hg : item ∈ (gate (arxivReason cfg cutoff) raw).1 := List.mem_of_mem_take hi
        exact .inl ⟨hmode.resolve_right hstrict, mem_gate hg⟩

end Gates

/-- With a cutoff month set, a search returns nothing unless it is dated or strict. Dated, every result
has an arXiv id of a month before the cutoff, and none is a configured source paper under its id in
another case, with another prefix, version or white space. Strict, no result has an arXiv id, and every
one is of a year before the cutoff's or a book without a year. -/
theorem search_gated (mode cutoffText sources : PyStr) {cutoff : Nat}
    (hc : parseCutoff (strip cutoffText) = some cutoff) (query : PyStr) (numResults : Option Int)
    (response : Response) :
    ∀ item ∈ (search (.resolve mode cutoffText sources) query numResults response).results,
      ((GateConfig.resolve mode cutoffText sources).mode = "dated".toList ∧
        (∃ month, arxivMonth item.arxivId = some month ∧ month < cutoff) ∧
        ∀ piece ∈ sourcePieces sources, ∀ core, PaperId core → Spells core piece →
          ¬ Spells core item.arxivId) ∨
      ((GateConfig.resolve mode cutoffText sources).mode = "strict".toList ∧ item.arxivId = [] ∧
        ((∃ year, firstYear (strip ((item.provenance.map Provenance.year).getD [])) = some year ∧
            year < cutoff / 12) ∨
          (firstYear (strip ((item.provenance.map Provenance.year).getD [])) = none ∧
            Tables.lower (strip item.sourceType) = "book".toList))) := by
  intro item hi
  have hcut : (GateConfig.resolve mode cutoffText sources).cutoff = some cutoff := hc
  rcases mem_search hcut hi with ⟨hmode, hreason⟩ | ⟨hmode, hreason, hid⟩
  · obtain ⟨hmonth, hsource⟩ := arxivReason_none hreason
    refine .inl ⟨hmode, hmonth, fun piece hpiece core hcore hspells hitem => ?_⟩
    have hnorm := normalizeId_of_spells hcore hitem
    rcases hsource with hnil | hnot
    · obtain ⟨head, sep, number, hshape, _⟩ := hcore.shape
      rw [hnorm, hshape] at hnil
      simp at hnil
    · rw [hnorm] at hnot
      refine hnot (List.mem_map.mpr ⟨piece, hpiece, ?_⟩)
      exact normalizeId_of_spells hcore hspells
  · exact .inr ⟨hmode, hid, matlasReason_none hreason⟩

end Safety

/-- ASCII, with JSON for `str` and plain quotes for `repr`. -/
@[reducible] def asciiTables : Tables where
  digit c := if 48 ≤ c.toNat ∧ c.toNat ≤ 57 then some (c.toNat - 48) else none
  lower s := s.map Char.toLower
  valueText v := v.dumps (Json.spaced false false)
  reprText s := '\'' :: s ++ ['\'']
  digit_ascii _ _ := rfl
  lower_ascii _ _ := rfl

/-- One paper of the arXiv index. -/
def indexBody (arxivId : PyStr) : Json :=
  .arr [.obj [("title".toList, .str "Sums".toList), ("theorem".toList, .str "x = x".toList),
    ("arxiv_id".toList, .str arxivId), ("theorem_id".toList, .str "1".toList)]]

/-- One paper of the journals. -/
def journalBody : Json :=
  .arr [.obj [("title".toList, .str "Sums".toList), ("statement".toList, .str "x = x".toList),
    ("year".toList, .str "1999".toList), ("type".toList, .str "paper".toList)]]

theorem search_gated_dated :
    let found := @search asciiTables (@GateConfig.resolve asciiTables "dated".toList "2601".toList
      "1707.00001".toList) "sums".toList none (.ok (indexBody "arXiv:1707.00002v3".toList))
    found.results.length = 1 ∧ ∀ item ∈ found.results,
      ∃ month, @arxivMonth asciiTables item.arxivId = some month ∧ month < 24312 := by
  have h := @search_gated asciiTables "dated".toList "2601".toList "1707.00001".toList 24312 (by decide)
    "sums".toList none (.ok (indexBody "arXiv:1707.00002v3".toList))
  refine ⟨by decide, fun item hi => ?_⟩
  rcases h item hi with hd | hs
  · exact hd.2.1
  · exact absurd hs.1 (by decide)

/-- Results of the journals have no arXiv id, and the source paper comes back under its id without the
subject class. -/
theorem search_returns_undated :
    (@search asciiTables (@GateConfig.resolve asciiTables "strict".toList "2601".toList []) "sums".toList
      none (.ok journalBody)).results.map (fun item => @arxivMonth asciiTables item.arxivId) = [none] ∧
    (@search asciiTables (@GateConfig.resolve asciiTables "dated".toList "2601".toList
      "math.NT/0605123".toList) "sums".toList none (.ok (indexBody "math/0605123".toList))).results.map
        Result.arxivId = ["math/0605123".toList] := by
  decide

end Danus.Integrations
