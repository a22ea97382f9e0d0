import Danus.WritePaper.ReferenceLedger

/-! The rows of a reference ledger as they are written and read back. -/
namespace Danus.WritePaper.References
open Python Entries
open Danus.FactGraph (Runtime)

def NoBreak (s : PyStr) : Prop := ∀ c ∈ s, isLineBreak c = false

instance (s : PyStr) : Decidable (NoBreak s) := inferInstanceAs (Decidable (∀ c ∈ s, isLineBreak c = false))

/-- A blank line of a row. -/
def isBlank (i : PyStr × PyStr) : Bool := i.1 == raw && strip i.2 == []

/-- A row without its blank lines, which writing drops and parts the rows with. -/
def content (body : Body) : Body := body.filter fun i => !isBlank i

def contents (sections : List Section) : List Section := sections.map fun s => (s.1, content s.2)

/-- What a ledger says, line by line. -/
inductive Token where
  | head (key : PyStr)
  | item (i : PyStr × PyStr)

def bodyTokens (body : Body) : List Token := (content body).map .item

def tokens (sections : List Section) : List Token :=
  sections.flatMap fun s => .head s.1 :: bodyTokens s.2

def gather : List Token → Body × List Section
  | [] => ([], [])
  | .item i :: ts => (i :: (gather ts).1, (gather ts).2)
  | .head key :: ts => ([], (key, (gather ts).1) :: (gather ts).2)

section Tokens
variable {body : Body} {sections sections' : List Section} {ts : List Token}

theorem gather_items (body : Body) (ts : List Token) :
    gather (body.map .item ++ ts) = (body ++ (gather ts).1, (gather ts).2) := by
  induction body with
  | nil => rfl
  | cons i body ih =>
    rw [List.map_cons, List.cons_append, gather, ih]
    rfl

theorem gather_tokens (sections : List Section) : gather (tokens sections) = ([], contents sections) := by
  induction sections with
  | nil => rfl
  | cons s sections ih =>
    have hcons : tokens (s :: sections) = .head s.1 :: (bodyTokens s.2 ++ tokens sections) := rfl
    rw [hcons, gather, bodyTokens, gather_items, ih, List.append_nil]
    rfl

theorem tokens_contents (sections : List Section) : tokens sections =
    (contents sections).flatMap fun s => .head s.1 :: s.2.map .item := by
  rw [contents, List.flatMap_map]
  rfl

/-- Rows say the same just when their lines do. -/
theorem tokens_eq_iff : tokens sections = tokens sections' ↔ contents sections = contents sections' := by
  constructor
  · intro h
    have hg := congrArg gather h
    rw [gather_tokens, gather_tokens] at hg
    exact (Prod.mk.inj hg).2
  · intro h
    rw [tokens_contents, tokens_contents, h]

theorem tokens_filter (p : Section → Bool) (sections : List Section) :
    (tokens (sections.filter p)).Sublist (tokens sections) := by
  induction sections with
  | nil => exact List.Sublist.refl _
  | cons s sections ih =>
    by_cases hp : p s = true
    · rw [List.filter_cons_of_pos hp]
      exact List.Sublist.append (List.Sublist.refl _) ih
    · rw [List.filter_cons_of_neg hp]
      exact ih.trans (List.sublist_append_right _ _)

/-- Lists that grow at each element by at most what it leaves, and lose nothing, keep each element. -/
theorem eq_singleton_of_sublist {α : Type} {g : α → List α} (hg : ∀ t, (g t).length ≤ 1) {l : List α}
    (h : l.Sublist (l.flatMap g)) : ∀ t ∈ l, g t = [t] := by
  have hlen (l : List α) : (l.flatMap g).length ≤ l.length := by
    induction l with
    | nil => exact Nat.le_refl _
    | cons t l ih =>
      have ht := hg t
      rw [List.flatMap_cons, List.length_append, List.length_cons]
      omega
  have heq : l = l.flatMap g := h.eq_of_length_le (hlen l)
  clear h
  induction l with
  | nil => simp
  | cons t l ih =>
    rw [List.flatMap_cons] at heq
    cases ht : g t with
    | nil =>
      have hl := congrArg List.length heq
      have hshort := hlen l
      rw [ht, List.nil_append, List.length_cons] at hl
      omega
    | cons u us =>
      have hus : us = [] := by
        have hone := hg t
        rw [ht, List.length_cons] at hone
        exact List.eq_nil_of_length_eq_zero (by omega)
      subst hus
      rw [ht] at heq
      obtain ⟨rfl, hrest⟩ := List.cons.inj heq
      intro w hw
      rcases List.mem_cons.mp hw with rfl | hw
      · exact ht
      · exact ih hrest w hw

end Tokens

theorem raw_noBreak : NoBreak raw := by decide

section Lines
variable {i : PyStr × PyStr}

theorem noBreak_append {s t : PyStr} (hs : NoBreak s) (ht : NoBreak t) : NoBreak (s ++ t) := by
  intro c hc
  rcases List.mem_append.mp hc with hc | hc
  · exact hs c hc
  · exact ht c hc

theorem itemLines_blank (h : isBlank i = true) : itemLines i = [] := by
  unfold isBlank at h
  rw [Bool.and_eq_true, beq_iff_eq, beq_iff_eq] at h
  rw [itemLines, if_pos h.1, if_pos h.2]

theorem itemLines_single (h : isBlank i = false) : ∃ line, itemLines i = [line] := by
  unfold itemLines
  split_ifs with hr hs
  · rw [isBlank, hr, hs] at h
    cases h
  · exact ⟨_, rfl⟩
  · exact ⟨_, rfl⟩

theorem content_lines (body : Body) : (content body).flatMap itemLines = body.flatMap itemLines := by
  induction body with
  | nil => rfl
  | cons i body ih =>
    cases hb : isBlank i with
    | true =>
      have hf : content (i :: body) = content body := List.filter_cons_of_neg (by simp [hb])
      rw [hf, ih, List.flatMap_cons, itemLines_blank hb, List.nil_append]
    | false =>
      have hf : content (i :: body) = i :: content body := List.filter_cons_of_pos (by simp [hb])
      rw [hf, List.flatMap_cons, List.flatMap_cons, ih]

end Lines

section Reading
variable [Runtime] {line : PyStr} {lines : List PyStr} {body : Body} {sections : List Section}
  {i : PyStr × PyStr}

def lineTokens (line : PyStr) : List Token :=
  match ledgerHead line with
  | some rest => [.head (strip rest)]
  | none => bodyTokens [itemOf line]

/-- Reading goes line by line. -/
theorem sectionsFrom_tokens (h : sectionsFrom lines = some (body, sections)) :
    bodyTokens body ++ tokens sections = lines.flatMap lineTokens := by
  induction lines generalizing body sections with
  | nil =>
    obtain ⟨rfl, rfl⟩ := Prod.mk.inj (Option.some.inj h)
    rfl
  | cons line lines ih =>
    rw [sectionsFrom] at h
    obtain ⟨⟨b, ss⟩, hrest, h⟩ := Option.bind_eq_some_iff.mp h
    rw [List.flatMap_cons, ← ih hrest, lineTokens]
    cases hhead : ledgerHead line with
    | none =>
      rw [hhead] at h
      obtain ⟨rfl, rfl⟩ := Prod.mk.inj (Option.some.inj h)
      have hcons : bodyTokens (itemOf line :: b) = bodyTokens [itemOf line] ++ bodyTokens b := by
        rw [bodyTokens, bodyTokens, bodyTokens, ← List.map_append, content, content, content,
          ← List.filter_append]
        rfl
      rw [hcons, List.append_assoc]
    | some rest =>
      rw [hhead] at h
      cases rest with
      | nil => cases h
      | cons c rest =>
        obtain ⟨rfl, rfl⟩ := Prod.mk.inj (Option.some.inj h)
        rfl

/-- Reading raises at a bare heading only. -/
theorem sectionsFrom_eq_none : sectionsFrom lines = none ↔ ∃ line ∈ lines, ledgerHead line = some [] := by
  induction lines with
  | nil => simp [sectionsFrom]
  | cons line lines ih =>
    rw [sectionsFrom]
    cases hrest : sectionsFrom lines with
    | none =>
      obtain ⟨bare, hm, hb⟩ := ih.mp hrest
      exact ⟨fun _ => ⟨bare, List.mem_cons_of_mem _ hm, hb⟩, fun _ => rfl⟩
    | some p =>
      have hnot : ¬ ∃ line ∈ lines, ledgerHead line = some [] := by
        intro hb
        rw [ih.mpr hb] at hrest
        cases hrest
      have hcons : (∃ l ∈ line :: lines, ledgerHead l = some []) ↔ ledgerHead line = some [] := by
        constructor
        · rintro ⟨l, hl, hb⟩
          rcases List.mem_cons.mp hl with rfl | hl
          · exact hb
          · exact (hnot ⟨l, hl, hb⟩).elim
        · exact fun hb => ⟨line, List.mem_cons_self, hb⟩
      rw [hcons, Option.bind_some]
      cases hhead : ledgerHead line with
      | none => simp
      | some rest => cases rest <;> simp

/-- What reading makes of a line. -/
structure ReadItem (i : PyStr × PyStr) : Prop where
  name : NoBreak i.1
  value : NoBreak i.2
  field : i.1 ≠ raw → i.1.head?.any isNameStart = true ∧ (∀ c ∈ i.1, isNameChar c = true) ∧ lstrip i.2 = i.2

theorem ledgerField_read (h : ledgerField line = some i) (hline : NoBreak line) :
    NoBreak i.1 ∧ NoBreak i.2 ∧ i.1.head?.any isNameStart = true ∧ (∀ c ∈ i.1, isNameChar c = true) ∧
      lstrip i.2 = i.2 := by
  unfold ledgerField at h
  split at h
  · next rest =>
    have htext : NoBreak (lstrip rest) := fun c hc => hline c (List.mem_cons_of_mem _ (lstrip_sub hc))
    simp only at h
    split at h
    · next value hdrop =>
      split_ifs at h with hguard
      obtain rfl := Option.some.inj h
      have hsplit := List.takeWhile_append_dropWhile (p := isNameChar) (l := lstrip rest)
      refine ⟨fun c hc => htext c ((List.takeWhile_sublist _).mem hc), fun c hc => htext c ?_, hguard.2,
        fun c hc => List.mem_takeWhile_imp hc, lstrip_lstrip _⟩
      rw [← hsplit, hdrop]
      exact List.mem_append_right _ (List.mem_cons_of_mem _ (lstrip_sub hc))
    · cases h
  · cases h

theorem itemOf_read (hline : NoBreak line) : ReadItem (itemOf line) := by
  unfold itemOf
  cases h : ledgerField line with
  | none => exact ⟨raw_noBreak, hline, fun hne => (hne rfl).elim⟩
  | some i =>
    obtain ⟨hname, hvalue, hstart, hchars, hstrip⟩ := ledgerField_read h hline
    exact ⟨hname, hvalue, fun _ => ⟨hstart, hchars, hstrip⟩⟩

/-- What reading makes of a heading. -/
def ReadKey (key : PyStr) : Prop := NoBreak key ∧ strip key = key

theorem sectionsFrom_read (hlines : ∀ line ∈ lines, NoBreak line)
    (h : sectionsFrom lines = some (body, sections)) :
    (∀ i ∈ body, ReadItem i) ∧ ∀ s ∈ sections, ReadKey s.1 ∧ ∀ i ∈ s.2, ReadItem i := by
  induction lines generalizing body sections with
  | nil =>
    obtain ⟨rfl, rfl⟩ := Prod.mk.inj (Option.some.inj h)
    exact ⟨by simp, by simp⟩
  | cons line lines ih =>
    rw [sectionsFrom] at h
    obtain ⟨⟨b, ss⟩, hrest, h⟩ := Option.bind_eq_some_iff.mp h
    obtain ⟨hb, hss⟩ := ih (fun l hl => hlines l (List.mem_cons_of_mem _ hl)) hrest
    have hline := hlines line List.mem_cons_self
    cases hhead : ledgerHead line with
    | none =>
      rw [hhead] at h
      obtain ⟨rfl, rfl⟩ := Prod.mk.inj (Option.some.inj h)
      refine ⟨fun i hi => ?_, hss⟩
      rcases List.mem_cons.mp hi with rfl | hi
      · exact itemOf_read hline
      · exact hb i hi
    | some rest =>
      rw [hhead] at h
      cases rest with
      | nil => cases h
      | cons c rest =>
        obtain ⟨rfl, rfl⟩ := Prod.mk.inj (Option.some.inj h)
        refine ⟨by simp, fun s hs => ?_⟩
        rcases List.mem_cons.mp hs with rfl | hs
        · refine ⟨⟨fun d hd => hline d ?_, strip_strip _⟩, hb⟩
          have hshape : line = '#' :: '#' :: ' ' :: c :: rest := by
            unfold ledgerHead at hhead
            split at hhead
            · rw [Option.some.inj hhead]
            · cases hhead
          rw [hshape]
          exact List.mem_cons_of_mem _ (List.mem_cons_of_mem _ (List.mem_cons_of_mem _ (strip_sub hd)))
        · exact hss s hs

/-- The rows of a text that was read. -/
theorem parse_read {text : PyStr} {p : List PyStr × List Section} (h : parseLedgerSections text = some p) :
    (∀ line ∈ p.1, NoBreak line ∧ ledgerHead line = none) ∧
      ∀ s ∈ p.2, (ReadKey s.1 ∧ isDelta s.1 = false) ∧ ∀ i ∈ s.2, ReadItem i := by
  obtain ⟨⟨b, ss⟩, hs, rfl⟩ := Option.map_eq_some_iff.mp h
  refine ⟨fun line hl => ⟨splitlines_unbroken ((List.takeWhile_sublist _).mem hl), ?_⟩, fun s hm => ?_⟩
  · simpa using List.mem_takeWhile_imp hl
  · obtain ⟨hmem, hdelta⟩ := List.mem_filter.mp hm
    have hread := (sectionsFrom_read (fun l hl =>
      splitlines_unbroken ((List.dropWhile_sublist _).mem hl)) hs).2 s hmem
    exact ⟨⟨hread.1, by simpa using hdelta⟩, hread.2⟩

end Reading

section Writing
variable [Runtime] {preamble : List PyStr} {sections : List Section} {i : PyStr × PyStr} {key : PyStr}

/-- A row's key that is read back. -/
def SafeKey (key : PyStr) : Prop := key ≠ [] ∧ ReadKey key ∧ isDelta key = false

/-- A line of a row that is read back. -/
def Rereads (i : PyStr × PyStr) : Prop :=
  ∀ line ∈ itemLines i, NoBreak line ∧ ledgerHead line = none ∧ itemOf line = i

def Safe (sections : List Section) : Prop := ∀ s ∈ sections, SafeKey s.1 ∧ ∀ i ∈ s.2, Rereads i

omit [Runtime] in
theorem head_line_noBreak (hk : NoBreak key) : NoBreak ("## ".toList ++ key) := by
  exact noBreak_append (by decide) hk

/-- A line that was read is written on one line. -/
theorem itemLines_noBreak (h : ReadItem i) : ∀ line ∈ itemLines i, NoBreak line := by
  intro line hl
  unfold itemLines at hl
  split_ifs at hl
  · cases hl
  · rw [List.mem_singleton.mp hl]
    exact h.value
  · rw [List.mem_singleton.mp hl]
    exact noBreak_append (noBreak_append (noBreak_append (by decide) h.name) (by decide)) h.value

/-- A field that was read is read back. -/
theorem rereads_field (hname : i.1 ≠ raw) (hstart : i.1.head?.any isNameStart = true)
    (hchars : ∀ c ∈ i.1, isNameChar c = true) (hbreak : NoBreak i.1) :
    Rereads i ↔ NoBreak i.2 ∧ lstrip i.2 = i.2 := by
  have hfield : ledgerField ("- ".toList ++ i.1 ++ ": ".toList ++ i.2) = some (i.1, lstrip i.2) := by
    obtain ⟨c, name, hc⟩ : ∃ c name, i.1 = c :: name := by
      cases hn : i.1 with
      | nil =>
        rw [hn] at hstart
        cases hstart
      | cons c name => exact ⟨c, name, rfl⟩
    have hspace : isSpace c = false := by
      have hs : isNameStart c = true := by
        rw [hc] at hstart
        exact hstart
      cases hsp : isSpace c with
      | false => rfl
      | true =>
        exfalso
        simp only [isNameStart, isSpace, Bool.or_eq_true, Bool.and_eq_true, decide_eq_true_eq, beq_iff_eq,
          Char.le_def, UInt32.le_iff_toNat_le, Char.ext_iff, UInt32.ext_iff] at hs hsp
        simp only [Char.toNat] at hsp
        have h1 : 'a'.val.toNat = 97 := rfl
        have h2 : 'z'.val.toNat = 122 := rfl
        have h3 : 'A'.val.toNat = 65 := rfl
        have h4 : 'Z'.val.toNat = 90 := rfl
        have h5 : '_'.val.toNat = 95 := rfl
        omega
    have hshape : "- ".toList ++ i.1 ++ ": ".toList ++ i.2 = '-' :: ' ' :: (i.1 ++ ':' :: ' ' :: i.2) := by
      simp
    have hstrip : lstrip (' ' :: (i.1 ++ ':' :: ' ' :: i.2)) = i.1 ++ ':' :: ' ' :: i.2 := by
      rw [lstrip_cons_space (by decide), hc]
      exact lstrip_cons hspace
    have hcolon : isNameChar ':' = false := by
      simp [isNameChar, isAlnumAscii]
    have htake : (i.1 ++ ':' :: ' ' :: i.2).takeWhile isNameChar = i.1 := by
      rw [List.takeWhile_append_of_pos hchars, List.takeWhile_cons_of_neg (by simp [hcolon]), List.append_nil]
    have hdrop : (i.1 ++ ':' :: ' ' :: i.2).dropWhile isNameChar = ':' :: ' ' :: i.2 := by
      rw [List.dropWhile_append_of_pos hchars, List.dropWhile_cons_of_neg (by simp [hcolon])]
    rw [hshape, ledgerField]
    simp only [hstrip, htake, hdrop]
    rw [if_pos ⟨rfl, hstart⟩, lstrip_cons_space (by decide)]
  have hlines : itemLines i = ["- ".toList ++ i.1 ++ ": ".toList ++ i.2] := if_neg hname
  have hitem : itemOf ("- ".toList ++ i.1 ++ ": ".toList ++ i.2) = (i.1, lstrip i.2) := by
    rw [itemOf, hfield]
    rfl
  unfold Rereads
  rw [hlines]
  simp only [List.mem_singleton, forall_eq, hitem]
  constructor
  · rintro ⟨hb, _, he⟩
    exact ⟨fun c hc => hb c (List.mem_append_right _ hc), congrArg Prod.snd he⟩
  · rintro ⟨hb, hl⟩
    refine ⟨noBreak_append (noBreak_append (noBreak_append (by decide) hbreak) (by decide)) hb, rfl, ?_⟩
    rw [hl]

theorem rereads_read (h : ReadItem i) (hname : i.1 ≠ raw) : Rereads i := by
  obtain ⟨hstart, hchars, hstrip⟩ := h.field hname
  exact (rereads_field hname hstart hchars h.name).mpr ⟨h.value, hstrip⟩

/-- The lines that a row's line is read as. -/
def tokenLines : Token → List Token
  | .head key => lineTokens ("## ".toList ++ key)
  | .item i => (itemLines i).flatMap lineTokens

theorem lineTokens_length (line : PyStr) : (lineTokens line).length ≤ 1 := by
  unfold lineTokens
  split
  · exact Nat.le_refl _
  · rw [bodyTokens, List.length_map]
    exact List.length_filter_le _ _

theorem tokenLines_length (t : Token) : (tokenLines t).length ≤ 1 := by
  cases t with
  | head key => exact lineTokens_length ("## ".toList ++ key)
  | item i =>
    cases hb : isBlank i with
    | true =>
      rw [tokenLines, itemLines_blank hb]
      exact Nat.zero_le _
    | false =>
      obtain ⟨line, hl⟩ := itemLines_single hb
      rw [tokenLines, hl, List.flatMap_singleton]
      exact lineTokens_length _

theorem lineTokens_nil : lineTokens [] = [] := rfl

/-- What is written is read line by line. -/
theorem sectionLines_tokens (sections : List Section) :
    (sections.flatMap sectionLines).flatMap lineTokens = (tokens sections).flatMap tokenLines := by
  induction sections with
  | nil => rfl
  | cons s sections ih =>
    have hbody : (s.2.flatMap itemLines).flatMap lineTokens = (bodyTokens s.2).flatMap tokenLines := by
      rw [← content_lines, List.flatMap_assoc, bodyTokens, List.flatMap_map]
      rfl
    have hcons : tokens (s :: sections) = .head s.1 :: (bodyTokens s.2 ++ tokens sections) := rfl
    rw [List.flatMap_cons, List.flatMap_append, ih, hcons, List.flatMap_cons, List.flatMap_append,
      sectionLines, List.flatMap_cons, List.flatMap_cons, hbody, lineTokens_nil]
    simp only [List.nil_append, List.append_assoc]
    rfl

/-- What the written ledger is read as. -/
def RoundTrips (preamble : List PyStr) (sections : List Section) : Prop :=
  ∃ p, parseLedgerSections (renderLedger preamble sections) = some p ∧
    contents p.2 = contents sections

/-- The lines of a preamble up to the empty ones at its end. -/
def shownLines (preamble : List PyStr) : List PyStr := preamble.rdropWhile (· == [])

omit [Runtime] in
theorem shown_sub {line : PyStr} (h : line ∈ shownLines preamble) : line ∈ preamble :=
  (List.rdropWhile_prefix _ _).sublist.mem h

omit [Runtime] in
theorem itemLines_ne_nil : ∀ line ∈ itemLines i, line ≠ [] := by
  intro line hl
  unfold itemLines at hl
  split_ifs at hl with _ hs
  · cases hl
  · rw [List.mem_singleton.mp hl]
    intro hnil
    rw [hnil] at hs
    exact hs rfl
  · rw [List.mem_singleton.mp hl]
    simp

omit [Runtime] in
/-- What is written of rows does not end in an empty line. -/
theorem sectionLines_last (sections : List Section) (hne : sections.flatMap sectionLines ≠ []) :
    (sections.flatMap sectionLines).getLast hne ≠ [] := by
  induction sections using List.reverseRecOn with
  | nil => exact (hne rfl).elim
  | append_singleton sections s _ =>
    have htail : ("## ".toList ++ s.1) :: s.2.flatMap itemLines ≠ [] := List.cons_ne_nil _ _
    have hsplit : (sections ++ [s]).flatMap sectionLines = (sections.flatMap sectionLines ++ [[]]) ++
        ("## ".toList ++ s.1) :: s.2.flatMap itemLines := by
      rw [List.flatMap_append, List.flatMap_singleton, sectionLines, List.append_assoc]
      rfl
    have hlast : ((sections ++ [s]).flatMap sectionLines).getLast hne =
        (("## ".toList ++ s.1) :: s.2.flatMap itemLines).getLast htail := by
      simp only [hsplit]
      exact List.getLast_append_of_ne_nil _ htail
    rw [hlast]
    have hmem := List.getLast_mem htail
    rcases List.mem_cons.mp hmem with he | hm
    · rw [he]
      simp
    · obtain ⟨j, _, hj⟩ := List.mem_flatMap.mp hm
      exact itemLines_ne_nil _ hj

omit [Runtime] in
theorem joinWith_join {sep : PyStr} {parts rest : List PyStr} (hne : parts ≠ []) :
    joinWith sep (joinWith sep parts :: rest) = joinWith sep (parts ++ rest) := by
  induction rest using List.reverseRecOn with
  | nil => rw [joinWith_singleton, List.append_nil]
  | append_singleton rest p ih =>
    rw [← List.cons_append, joinWith_concat (List.cons_ne_nil _ _), ih, ← List.append_assoc parts rest,
      joinWith_concat (List.append_ne_nil_of_left_ne_nil hne _)]

omit [Runtime] in
/-- The lines of the text that is written. -/
theorem render_lines (hpre : ∀ line ∈ preamble, NoBreak line)
    (hsections : ∀ line ∈ sections.flatMap sectionLines, NoBreak line) :
    renderLedger preamble sections =
      joinWith ['\n'] (shownLines preamble ++ sections.flatMap sectionLines) ++ ['\n'] := by
  have hshown : rstripFeeds (joinWith ['\n'] preamble) = joinWith ['\n'] (shownLines preamble) :=
    rstripFeeds_join hpre
  have hall : ∀ line ∈ shownLines preamble ++ sections.flatMap sectionLines, NoBreak line := by
    intro line hl
    rcases List.mem_append.mp hl with hl | hl
    · exact hpre line (shown_sub hl)
    · exact hsections line hl
  have hkeep : (shownLines preamble ++ sections.flatMap sectionLines).rdropWhile (· == []) =
      shownLines preamble ++ sections.flatMap sectionLines := by
    by_cases hL : sections.flatMap sectionLines = []
    · rw [hL, List.append_nil]
      exact List.rdropWhile_idempotent _ _
    · refine List.rdropWhile_eq_self_iff.mpr fun hne => ?_
      rw [List.getLast_append_of_ne_nil _ hL]
      simpa using sectionLines_last sections hL
  have hout : joinWith ['\n'] ((if joinWith ['\n'] (shownLines preamble) = [] then [] else
      [joinWith ['\n'] (shownLines preamble)]) ++ sections.flatMap sectionLines) =
      joinWith ['\n'] (shownLines preamble ++ sections.flatMap sectionLines) := by
    by_cases hP : shownLines preamble = []
    · rw [hP]
      rfl
    · have hlast : (shownLines preamble).getLast hP ≠ [] := by
        intro hnil
        refine List.rdropWhile_last_not (· == []) preamble hP ?_
        rw [show (preamble.rdropWhile (· == [])).getLast hP = [] from hnil]
        rfl
      have hjoin : joinWith ['\n'] (shownLines preamble) ≠ [] := by
        obtain ⟨l, hl⟩ : ∃ l, shownLines preamble = l ++ [(shownLines preamble).getLast hP] :=
          ⟨_, (List.dropLast_append_getLast hP).symm⟩
        rw [hl]
        by_cases hnil : l = []
        · rw [hnil, List.nil_append, joinWith_singleton]
          exact hlast
        · rw [joinWith_concat hnil]
          simp
      rw [if_neg hjoin, List.singleton_append, joinWith_join hP]
  unfold renderLedger
  simp only [hshown, hout]
  rw [rstripFeeds_join hall, hkeep]

/-- The lines that the written text is read as. -/
theorem parse_render (hpre : ∀ line ∈ preamble, NoBreak line ∧ ledgerHead line = none)
    (hsections : ∀ line ∈ sections.flatMap sectionLines, NoBreak line) :
    parseLedgerSections (renderLedger preamble sections) =
      (sectionsFrom (sections.flatMap sectionLines).tail).map fun p =>
        (if shownLines preamble = [] ∧ sections = [] then [[]]
          else shownLines preamble ++ (if sections = [] then [] else [[]]),
          p.2.filter fun s => !isDelta s.1) := by
  have hshown : ∀ line ∈ shownLines preamble, (ledgerHead line).isNone = true := fun line hl => by
    rw [(hpre line (shown_sub hl)).2]
    rfl
  have hrender := render_lines (fun line hl => (hpre line hl).1) hsections
  have hall : ∀ line ∈ shownLines preamble ++ sections.flatMap sectionLines, NoBreak line := by
    intro line hl
    rcases List.mem_append.mp hl with hl | hl
    · exact (hpre line (shown_sub hl)).1
    · exact hsections line hl
  unfold parseLedgerSections
  cases sections with
  | nil =>
    rw [List.flatMap_nil, List.append_nil] at hrender hall
    by_cases hP : shownLines preamble = []
    · rw [hrender, hP]
      rfl
    · rw [hrender, splitlines_joinFed hall hP]
      have hdrop : (shownLines preamble).dropWhile (fun line => (ledgerHead line).isNone) = [] :=
        List.dropWhile_eq_nil_iff.mpr hshown
      have htake : (shownLines preamble).takeWhile (fun line => (ledgerHead line).isNone) =
          shownLines preamble := List.takeWhile_eq_self_iff.mpr hshown
      simp only [hdrop, htake]
      simp [hP]
  | cons s sections =>
    have hhead : ledgerHead ("## ".toList ++ s.1) = some s.1 := rfl
    have hL : (s :: sections).flatMap sectionLines = [] :: ("## ".toList ++ s.1) ::
        (s.2.flatMap itemLines ++ sections.flatMap sectionLines) := rfl
    have hne : shownLines preamble ++ (s :: sections).flatMap sectionLines ≠ [] := by
      rw [hL]
      simp
    have hdrop : (shownLines preamble ++ (s :: sections).flatMap sectionLines).dropWhile
        (fun line => (ledgerHead line).isNone) = ((s :: sections).flatMap sectionLines).tail := by
      rw [List.dropWhile_append_of_pos hshown, hL, List.dropWhile_cons_of_pos rfl,
        List.dropWhile_cons_of_neg (by rw [hhead]; simp)]
      rfl
    have htake : (shownLines preamble ++ (s :: sections).flatMap sectionLines).takeWhile
        (fun line => (ledgerHead line).isNone) = shownLines preamble ++ [[]] := by
      rw [List.takeWhile_append_of_pos hshown, hL, List.takeWhile_cons_of_pos rfl,
        List.takeWhile_cons_of_neg (by rw [hhead]; simp)]
    rw [hrender, splitlines_joinFed hall hne]
    simp only [hdrop, htake]
    simp

omit [Runtime] in
/-- The lines of rows: an empty one, the heading, and those of the row. -/
theorem mem_sectionLines {line : PyStr} (h : line ∈ sections.flatMap sectionLines) :
    line = [] ∨ (∃ s ∈ sections, line = "## ".toList ++ s.1) ∨
      ∃ s ∈ sections, ∃ i ∈ content s.2, line ∈ itemLines i := by
  obtain ⟨s, hs, hl⟩ := List.mem_flatMap.mp h
  rcases List.mem_cons.mp hl with rfl | hl
  · exact .inl rfl
  · rcases List.mem_cons.mp hl with rfl | hl
    · exact .inr (.inl ⟨s, hs, rfl⟩)
    · rw [← content_lines] at hl
      exact .inr (.inr ⟨s, hs, List.mem_flatMap.mp hl⟩)

omit [Runtime] in
theorem mem_tail_sectionLines {line : PyStr} (hne : line ≠ []) :
    line ∈ (sections.flatMap sectionLines).tail ↔ line ∈ sections.flatMap sectionLines := by
  cases sections with
  | nil => rfl
  | cons s sections =>
    have hL : (s :: sections).flatMap sectionLines =
        [] :: ((s :: sections).flatMap sectionLines).tail := rfl
    rw [hL, List.tail_cons, List.mem_cons]
    exact (or_iff_right hne).symm

/-- The lines after the first, empty one say the same. -/
theorem tail_tokens (sections : List Section) :
    (sections.flatMap sectionLines).tail.flatMap lineTokens = (tokens sections).flatMap tokenLines := by
  rw [← sectionLines_tokens]
  cases sections with
  | nil => rfl
  | cons s sections => rfl

theorem lineTokens_item {line : PyStr} (h : lineTokens line = [.item i]) :
    ledgerHead line = none ∧ itemOf line = i := by
  unfold lineTokens at h
  cases hhead : ledgerHead line with
  | some rest =>
    rw [hhead] at h
    cases List.head_eq_of_cons_eq h
  | none =>
    rw [hhead] at h
    refine ⟨rfl, ?_⟩
    cases hb : isBlank (itemOf line) with
    | true =>
      have hnil : content [itemOf line] = [] := List.filter_cons_of_neg (by simp [hb])
      simp only [bodyTokens, hnil] at h
      cases h
    | false =>
      have hone : content [itemOf line] = [itemOf line] := List.filter_cons_of_pos (by simp [hb])
      simp only [bodyTokens, hone] at h
      exact Token.item.inj (List.head_eq_of_cons_eq h)

/-- Rows that are read back say what was written. -/
theorem safe_of_roundTrips (hpre : ∀ line ∈ preamble, NoBreak line ∧ ledgerHead line = none)
    (h : RoundTrips preamble sections) : Safe sections := by
  obtain ⟨p, hp, hc⟩ := h
  have hread : ∀ s ∈ sections, (ReadKey s.1 ∧ isDelta s.1 = false) ∧ ∀ i ∈ content s.2, ReadItem i := by
    intro s hs
    have hmem : (s.1, content s.2) ∈ contents p.2 := hc ▸ List.mem_map_of_mem hs
    obtain ⟨s', hs', he⟩ := List.mem_map.mp hmem
    obtain ⟨hkey, hbody⟩ := Prod.mk.inj he
    obtain ⟨hk, hi⟩ := (parse_read hp).2 s' hs'
    refine ⟨hkey ▸ hk, fun i hi' => hi i ?_⟩
    rw [← hbody] at hi'
    exact List.mem_of_mem_filter hi'
  have hlines : ∀ line ∈ sections.flatMap sectionLines, NoBreak line := by
    intro line hl
    rcases mem_sectionLines hl with rfl | ⟨s, hs, rfl⟩ | ⟨s, hs, i, hi, hl⟩
    · simp [NoBreak]
    · exact head_line_noBreak (hread s hs).1.1.1
    · exact itemLines_noBreak ((hread s hs).2 i hi) line hl
  rw [parse_render hpre hlines] at hp
  obtain ⟨q, hq, rfl⟩ := Option.map_eq_some_iff.mp hp
  have hbare : ∀ line ∈ (sections.flatMap sectionLines).tail, ledgerHead line ≠ some [] := by
    intro line hl hb
    rw [sectionsFrom_eq_none.mpr ⟨line, hl, hb⟩] at hq
    cases hq
  have hsub : (tokens sections).Sublist ((tokens sections).flatMap tokenLines) := by
    rw [← tail_tokens, ← sectionsFrom_tokens hq, ← tokens_eq_iff.mpr hc]
    exact (tokens_filter _ _).trans (List.sublist_append_right _ _)
  have hkept := eq_singleton_of_sublist tokenLines_length hsub
  intro s hs
  refine ⟨⟨?_, (hread s hs).1.1, (hread s hs).1.2⟩, fun i hi line hl => ?_⟩
  · intro hnil
    have hmem : "## ".toList ++ s.1 ∈ sections.flatMap sectionLines :=
      List.mem_flatMap.mpr ⟨s, hs, List.mem_cons_of_mem _ List.mem_cons_self⟩
    refine hbare _ ((mem_tail_sectionLines (by simp)).mpr hmem) ?_
    rw [hnil]
    rfl
  · cases hb : isBlank i with
    | true =>
      rw [itemLines_blank hb] at hl
      cases hl
    | false =>
      have hcontent : i ∈ content s.2 := List.mem_filter.mpr ⟨hi, by simp [hb]⟩
      have htoken : .item i ∈ tokens sections :=
        List.mem_flatMap.mpr ⟨s, hs, List.mem_cons_of_mem _ (List.mem_map_of_mem hcontent)⟩
      obtain ⟨line', hline⟩ := itemLines_single hb
      have hone := hkept _ htoken
      rw [tokenLines, hline, List.flatMap_singleton] at hone
      rw [hline, List.mem_singleton] at hl
      subst hl
      refine ⟨itemLines_noBreak ((hread s hs).2 i hcontent) line ?_, lineTokens_item hone⟩
      rw [hline]
      exact List.mem_singleton_self _

theorem roundTrips_of_safe (hpre : ∀ line ∈ preamble, NoBreak line ∧ ledgerHead line = none)
    (h : Safe sections) : ∃ p, parseLedgerSections (renderLedger preamble sections) = some p ∧
      contents p.2 = contents sections ∧ shownLines p.1 = shownLines preamble := by
  have hlines : ∀ line ∈ sections.flatMap sectionLines, NoBreak line := by
    intro line hl
    rcases mem_sectionLines hl with rfl | ⟨s, hs, rfl⟩ | ⟨s, hs, i, hi, hl⟩
    · simp [NoBreak]
    · exact head_line_noBreak (h s hs).1.2.1.1
    · exact ((h s hs).2 i (List.mem_of_mem_filter hi) line hl).1
  have hkept : (tokens sections).flatMap tokenLines = tokens sections := by
    have hone : ∀ t ∈ tokens sections, tokenLines t = [t] := by
      intro t ht
      obtain ⟨s, hs, ht⟩ := List.mem_flatMap.mp ht
      rcases List.mem_cons.mp ht with rfl | ht
      · have hstrip : lineTokens ("## ".toList ++ s.1) = [.head (strip s.1)] := rfl
        rw [tokenLines, hstrip, (h s hs).1.2.1.2]
      · obtain ⟨i, hi, rfl⟩ := List.mem_map.mp ht
        obtain ⟨hmem, hb⟩ := List.mem_filter.mp hi
        obtain ⟨line, hline⟩ := itemLines_single (by simpa using hb)
        obtain ⟨_, hhead, hitem⟩ := (h s hs).2 i hmem line (by rw [hline]; exact List.mem_singleton_self _)
        have hcontent : content [i] = [i] := List.filter_cons_of_pos hb
        rw [tokenLines, hline, List.flatMap_singleton, lineTokens, hhead, hitem, bodyTokens, hcontent]
        rfl
    rw [List.flatMap_congr hone, List.flatMap_singleton']
  have hsome : sectionsFrom (sections.flatMap sectionLines).tail ≠ none := by
    intro hnone
    obtain ⟨line, hl, hb⟩ := sectionsFrom_eq_none.mp hnone
    rcases mem_sectionLines (List.mem_of_mem_tail hl) with rfl | ⟨s, hs, rfl⟩ | ⟨s, hs, i, hi, hl⟩
    · cases hb
    · have hkey : s.1 = [] := Option.some.inj hb
      exact (h s hs).1.1 hkey
    · rw [((h s hs).2 i (List.mem_of_mem_filter hi) line hl).2.1] at hb
      cases hb
  obtain ⟨q, hq⟩ := Option.ne_none_iff_exists'.mp hsome
  have hgather : contents q.2 = contents sections := by
    have ht := sectionsFrom_tokens hq
    rw [tail_tokens, hkept] at ht
    have hg := congrArg gather ht
    rw [bodyTokens, gather_items, gather_tokens, gather_tokens] at hg
    exact (Prod.mk.inj hg).2
  have hfilter : (q.2.filter fun s => !isDelta s.1) = q.2 := by
    refine List.filter_eq_self.mpr fun s hs => ?_
    have hmem : (s.1, content s.2) ∈ contents sections := hgather ▸ List.mem_map_of_mem hs
    obtain ⟨s', hs', he⟩ := List.mem_map.mp hmem
    rw [← (Prod.mk.inj he).1, (h s' hs').1.2.2]
    rfl
  rw [parse_render hpre hlines, hq]
  refine ⟨_, rfl, ?_, ?_⟩
  · simp only [hfilter]
    exact hgather
  · simp only
    have hidem : shownLines (shownLines preamble) = shownLines preamble := List.rdropWhile_idempotent _ _
    split_ifs with hboth hempty
    · rw [hboth.1]
      rfl
    · rw [List.append_nil, hidem]
    · have hdrop : shownLines (shownLines preamble ++ [[]]) = shownLines (shownLines preamble) :=
        List.rdropWhile_concat_pos _ _ _ rfl
      rw [hdrop, hidem]

end Writing
end Danus.WritePaper.References
