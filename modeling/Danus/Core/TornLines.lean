import Danus.Core.Retrieval
import Danus.Lib.JsonBalance
import Danus.Lib.Lines

/-! A crash during one append: what the two readers of a channel make of a line that was cut. -/
namespace Danus.Core
open Python

/-- `append_jsonl` -/
def appendJsonl (file : List Nat) (record : Json) : List Nat := file ++ entryLine record

/-- `append_jsonl` of which only so many bytes reached the file. -/
def appendTorn (file : List Nat) (record : Json) (k : Nat) : List Nat :=
  file ++ (entryLine record).take k

/-- A channel after one call for each record, where the one between the lists was cut. -/
def tornFile (before : List Json) (record : Json) (k : Nat) (after : List Json) : List Nat :=
  after.foldl appendJsonl (appendTorn (before.foldl appendJsonl []) record k)

/-- The lines of a text file, with the line read so far. -/
def fileLinesFrom (line : PyStr) : PyStr → List PyStr
  | [] => if line.isEmpty then [] else [line.reverse]
  | c :: cs =>
    if c = '\n' then (c :: line).reverse :: fileLinesFrom [] cs else fileLinesFrom (c :: line) cs

/-- `for line in handle` -/
def fileLines (text : PyStr) : List PyStr := fileLinesFrom [] (universalNewlines text)

/-- What `iter_jsonl` yields for a line, with room for any nesting; what is not JSON it goes past. -/
def jsonlPayload (line : PyStr) : Option Json :=
  let line := strip line
  if line = [] then none
  else
    match Json.parse line with
    | some (.obj items) => some (.obj items)
    | _ => none

/-- `read_jsonl`; nothing where the file is not UTF-8. -/
def readJsonl (bytes : List Nat) : Option (List Json) :=
  (decodeUtf8 bytes).map fun text => (fileLines text).filterMap jsonlPayload

/-- What `json.dumps(payload, ensure_ascii=False)` writes. -/
def lineText (record : Json) : PyStr := record.dumps (Json.spaced false false)

variable {py : Interpreter} {record : Json} {before after : List Json}

theorem foldl_appendJsonl (file : List Nat) (records : List Json) :
    records.foldl appendJsonl file = file ++ records.flatMap entryLine := by
  induction records generalizing file with
  | nil => simp
  | cons r records ih => rw [List.foldl_cons, ih, appendJsonl, List.flatMap_cons, List.append_assoc]

theorem tornFile_eq (before : List Json) (record : Json) (k : Nat) (after : List Json) :
    tornFile before record k after =
      before.flatMap entryLine ++ ((entryLine record).take k ++ after.flatMap entryLine) := by
  rw [tornFile, foldl_appendJsonl, appendTorn, foldl_appendJsonl, List.nil_append, List.append_assoc]

theorem entryLine_eq (record : Json) : entryLine record = encodeUtf8 (lineText record) ++ [10] :=
  encodeUtf8_append _ _

theorem neutral_separators : Json.Neutral (Json.spaced false false).itemSeparator ∧
    Json.Neutral (Json.spaced false false).keySeparator := ⟨by decide, by decide⟩

theorem spaced_separators : (Json.spaced false false).Spaced :=
  ⟨⟨[' '], rfl, by decide⟩, ⟨[' '], rfl, by decide⟩⟩

theorem neutral_newline : Json.Neutral ['\n'] := by decide

section Strict
variable {body rest : List Nat}

theorem notMem_lineText (record : Json) : 10 ∉ encodeUtf8 (lineText record) := by
  obtain ⟨body, _, hb, rfl⟩ := entryLine_split record
  exact hb

/-- The end of a file without a newline. -/
theorem readline_end (hb : 10 ∉ body) (n : Nat) (hn : body.length < n) :
    readline n body = (body, []) := by
  induction body generalizing n with
  | nil =>
    obtain ⟨m, rfl⟩ : ∃ m, n = m + 1 := ⟨n - 1, by simp only [List.length_nil] at hn; omega⟩
    rfl
  | cons b body ih =>
    obtain ⟨m, rfl⟩ : ∃ m, n = m + 1 := ⟨n - 1, by omega⟩
    rw [List.mem_cons, not_or] at hb
    have h := ih hb.2 m (by simp only [List.length_cons] at hn; omega)
    rw [readline, if_neg (Ne.symm hb.1), h]

/-- The strict reader gets past the lines of legible records. -/
theorem iterJsonlStrict_past (hw : ∀ r ∈ before, Writable py r) (hl : ∀ r ∈ before, Legible py r)
    (m seen : Nat) (rest : List Nat) :
    iterJsonlStrict py (before.length + m) seen (before.flatMap entryLine ++ rest) =
      (before ++ (iterJsonlStrict py m (seen + before.length) rest).1,
        (iterJsonlStrict py m (seen + before.length) rest).2) := by
  induction before generalizing seen with
  | nil => simp
  | cons r before ih =>
    have ih' := ih (fun r' hr => hw r' (List.mem_cons_of_mem _ hr))
      (fun r' hr => hl r' (List.mem_cons_of_mem _ hr)) (seen + 1)
    have hstep := (iterJsonlStrict_entryLine (hw r List.mem_cons_self) (before.length + m) seen
      (before.flatMap entryLine ++ rest)).1 (hl r List.mem_cons_self)
    have hn : (r :: before).length + m = before.length + m + 1 := by
      rw [List.length_cons]
      omega
    have hs : seen + (r :: before).length = seen + 1 + before.length := by
      rw [List.length_cons]
      omega
    rw [hn, hs, List.flatMap_cons, List.append_assoc, hstep, ih']
    rfl

/-- The end of a channel that was cut in a line. -/
theorem iterJsonlStrict_cut (hb : 10 ∉ body) (hne : body ≠ []) (n seen : Nat) :
    ∃ e, iterJsonlStrict py (n + 1) seen body = ([], some e) := by
  rw [iterJsonlStrict]
  by_cases hlen : body.length ≤ maxPhysicalLineBytes
  · have hends : body.getLast? ≠ some 10 := fun h => hb (List.mem_of_getLast? h)
    simp only [readline_end hb _ (Nat.lt_succ_of_le hlen), if_neg hne, if_neg (Nat.not_lt.mpr hlen),
      if_pos hends]
    exact ⟨_, rfl⟩
  · have hlong : (readline (maxPhysicalLineBytes + 1) body).1.length = maxPhysicalLineBytes + 1 := by
      have h : (readline (maxPhysicalLineBytes + 1) (body ++ [])).1.length = maxPhysicalLineBytes + 1 :=
        readline_long hb _ (by omega)
      rwa [List.append_nil] at h
    have hne' : (readline (maxPhysicalLineBytes + 1) body).1 ≠ [] := by
      intro he
      rw [he] at hlong
      cases hlong
    simp only [if_neg hne', if_pos (show maxPhysicalLineBytes <
      (readline (maxPhysicalLineBytes + 1) body).1.length by omega)]
    exact ⟨_, rfl⟩

/-- A line that no JSON is. -/
theorem iterJsonlStrict_refused (hb : 10 ∉ body)
    (hbad : ∀ text, encodeUtf8 text = 123 :: body ++ [10] →
      Json.loads Json.strictHooks py.loadsDepth text = none) (n seen : Nat) (rest : List Nat) :
    ∃ e, iterJsonlStrict py (n + 1) seen (123 :: body ++ 10 :: rest) = ([], some e) := by
  have hb' : 10 ∉ 123 :: body := by
    rintro (_ | ⟨_, h⟩)
    exact hb h
  have hread : readEntry py (seen + 1) (123 :: body ++ [10]) = .error (.badUtf8 (seen + 1)) ∨
      readEntry py (seen + 1) (123 :: body ++ [10]) = .error (.malformed (seen + 1)) := by
    unfold readEntry
    cases hd : decodeUtf8 (123 :: body ++ [10]) with
    | none => exact .inl rfl
    | some text =>
      simp only [hbad text (decodeUtf8_ok hd)]
      exact .inr trivial
  rw [iterJsonlStrict]
  by_cases hlen : (123 :: body).length < maxPhysicalLineBytes
  · have hline : readline (maxPhysicalLineBytes + 1) (123 :: body ++ 10 :: rest) =
        (123 :: body ++ [10], rest) := readline_line hb' _ (by omega)
    have hne : 123 :: body ++ [10] ≠ [] := by simp
    have hfits : ¬ maxPhysicalLineBytes < (123 :: body ++ [10]).length := by
      rw [List.length_append, List.length_singleton]
      omega
    have hlast : (123 :: body ++ [10]).getLast? = some 10 := List.getLast?_concat
    have hends : ¬ (123 :: body ++ [10]).getLast? ≠ some 10 := not_not_intro hlast
    have hblank : (123 :: body ++ [10]).all isByteSpace = false := rfl
    simp only [hline, if_neg hne, if_neg hfits, if_neg hends, hblank, Bool.false_eq_true, if_false]
    rcases hread with he | he
    · rw [he]
      exact ⟨_, rfl⟩
    · rw [he]
      exact ⟨_, rfl⟩
  · have hlong : maxPhysicalLineBytes <
        (readline (maxPhysicalLineBytes + 1) (123 :: body ++ 10 :: rest)).1.length := by
      have hlen' : (123 :: body).length = maxPhysicalLineBytes ∨
          maxPhysicalLineBytes + 1 ≤ (123 :: body).length := by omega
      rcases hlen' with he | hle
      · rw [readline_line hb' _ (by omega), List.length_append, List.length_singleton]
        omega
      · rw [readline_long hb' _ hle]
        omega
    have hne : (readline (maxPhysicalLineBytes + 1) (123 :: body ++ 10 :: rest)).1 ≠ [] := by
      intro he
      rw [he] at hlong
      cases hlong
    simp only [if_neg hne, if_pos hlong]
    exact ⟨_, rfl⟩

/-- A cut line: some of the text of an object, and nothing of its end. -/
structure Cut (record : Json) (k : Nat) (body : List Nat) : Prop where
  take : (entryLine record).take k = 123 :: body
  part : 123 :: body <+: encodeUtf8 (lineText record)

theorem lineText_obj (items : List (PyStr × Json)) :
    ∃ s, lineText (.obj items) = '\x7b' :: s := by
  rw [lineText, Json.dumps]
  exact ⟨_, rfl⟩

theorem cut_of_lt (hw : Writable py record) {k : Nat} (hk : 0 < k) (hk' : k < (entryLine record).length) :
    ∃ body, Cut record k body := by
  obtain ⟨items, rfl⟩ := hw.object
  obtain ⟨s, hs⟩ := lineText_obj items
  have hline := entryLine_eq (.obj items)
  have hle : k ≤ (encodeUtf8 (lineText (.obj items))).length := by
    rw [hline, List.length_append, List.length_singleton] at hk'
    omega
  have htake : (entryLine (.obj items)).take k = (encodeUtf8 (lineText (.obj items))).take k := by
    rw [hline, List.take_append_of_le_length hle]
  have hhead : encodeUtf8 (lineText (.obj items)) = 123 :: encodeUtf8 s := by
    rw [hs]
    rfl
  obtain ⟨j, rfl⟩ : ∃ j, k = j + 1 := ⟨k - 1, by omega⟩
  have hcons : (encodeUtf8 (lineText (.obj items))).take (j + 1) = 123 :: (encodeUtf8 s).take j := by
    rw [hhead, List.take_succ_cons]
  refine ⟨(encodeUtf8 s).take j, htake.trans hcons, ?_⟩
  rw [← hcons]
  exact List.take_prefix _ _

/-- No JSON is the cut line with a whole one after it. -/
theorem Cut.refused {hooks : Json.Hooks} {depth k : Nat} {body : List Nat} (hc : Cut record k body)
    (hw : Writable py record) {r : Json} (hr : Writable py r) {ws text : PyStr} (hws : Json.Neutral ws)
    (ht : encodeUtf8 text = 123 :: body ++ encodeUtf8 (lineText r ++ ws)) :
    Json.loads hooks depth text = none := by
  obtain ⟨items, rfl⟩ := hw.object
  obtain ⟨more, rfl⟩ := hr.object
  by_cases hall : 123 :: body = encodeUtf8 (lineText (.obj items))
  · rw [hall, ← encodeUtf8_append] at ht
    have htext : text = lineText (.obj items) ++ (lineText (.obj more) ++ ws) := by
      have h := congrArg decodeUtf8 ht
      rw [decodeUtf8_encodeUtf8, decodeUtf8_encodeUtf8] at h
      exact Option.some.inj h
    rw [htext]
    exact Json.loads_pair hooks depth rfl spaced_separators (.obj items) more ws
  · exact Json.loads_torn hws neutral_separators.1 neutral_separators.2 hc.part (List.cons_ne_nil _ _)
      hall ht

/-- The strict reader stops at a line that was cut. -/
theorem iterJsonlStrict_torn (hw : Writable py record) (ha : ∀ r ∈ after, Writable py r) {k : Nat}
    (hk : 0 < k) (hk' : k < (entryLine record).length) (n seen : Nat) :
    ∃ e, iterJsonlStrict py (n + 1) seen ((entryLine record).take k ++ after.flatMap entryLine) =
      ([], some e) := by
  obtain ⟨body, hc⟩ := cut_of_lt hw hk hk'
  have hb : 10 ∉ 123 :: body := fun h => notMem_lineText record (hc.part.subset h)
  rw [hc.take]
  cases after with
  | nil =>
    rw [List.flatMap_nil, List.append_nil]
    exact iterJsonlStrict_cut hb (List.cons_ne_nil _ _) n seen
  | cons r after =>
    have hr := ha r List.mem_cons_self
    have hline : 123 :: body ++ (r :: after).flatMap entryLine =
        123 :: (body ++ encodeUtf8 (lineText r)) ++ 10 :: after.flatMap entryLine := by
      rw [List.flatMap_cons, entryLine_eq]
      simp
    rw [hline]
    refine iterJsonlStrict_refused ?_ (fun text ht => ?_) n seen _
    · rw [List.mem_append]
      rintro (h | h)
      · exact hb (List.mem_cons_of_mem _ h)
      · exact notMem_lineText r h
    · refine hc.refused hw hr neutral_newline ?_
      rw [ht, encodeUtf8_append]
      simp [encodeUtf8, utf8Char]

/-- A lookup is refused where the scan of a channel is. -/
theorem getImmutable_refused {channels : Kind → List Nat} {kind : Kind} {e : GmError}
    (he : (channelEntries py (channels kind)).2 = some e) (id : PyStr) :
    ∃ e', getImmutable py channels id = .error e' := by
  have hscan : ∀ kinds found, kind ∈ kinds → ∃ e', matchChannels py channels id found kinds = .error e' := by
    intro kinds
    induction kinds with
    | nil =>
      intro found hm
      cases hm
    | cons kind' kinds ih =>
      intro found hm
      rw [matchChannels]
      cases hf : matchEntries id found (channelEntries py (channels kind')).1 with
      | error e' => exact ⟨e', rfl⟩
      | ok found' =>
        cases hs : (channelEntries py (channels kind')).2 with
        | some e' => exact ⟨e', rfl⟩
        | none =>
          rcases List.mem_cons.mp hm with rfl | hm
          · rw [he] at hs
            cases hs
          · exact ih found' hm
  rw [getImmutable]
  split_ifs
  · exact ⟨_, rfl⟩
  · obtain ⟨e', he'⟩ := hscan Kind.all none (Kind.mem_all kind)
    rw [he']
    exact ⟨e', rfl⟩

end Strict

section Lenient
variable {p line t : PyStr}

theorem fileLinesFrom_line (acc : PyStr) (hl : '\n' ∉ line) (t : PyStr) :
    fileLinesFrom acc (line ++ '\n' :: t) = (acc.reverse ++ line ++ ['\n']) :: fileLinesFrom [] t := by
  induction line generalizing acc with
  | nil => simp [fileLinesFrom]
  | cons c line ih =>
    rw [List.mem_cons, not_or] at hl
    have h := ih (c :: acc) hl.2
    rw [List.cons_append, fileLinesFrom, if_neg (Ne.symm hl.1), h]
    simp

theorem fileLinesFrom_last (acc : PyStr) (hl : '\n' ∉ line) :
    fileLinesFrom acc line = if acc.reverse ++ line = [] then [] else [acc.reverse ++ line] := by
  induction line generalizing acc with
  | nil => cases acc <;> simp [fileLinesFrom]
  | cons c line ih =>
    rw [List.mem_cons, not_or] at hl
    rw [fileLinesFrom, if_neg (Ne.symm hl.1), ih (c :: acc) hl.2]
    simp

theorem universalNewlines_self {s : PyStr} (hs : '\r' ∉ s) : universalNewlines s = s := by
  induction s using universalNewlines.induct with
  | case1 => rfl
  | case2 cs ih => simp at hs
  | case3 c cs hc ih =>
    rw [List.mem_cons, not_or] at hs
    rw [universalNewlines.eq_3 c cs hc, if_neg (Ne.symm hs.1), ih hs.2]

theorem printable_lineText (record : Json) : Json.Printable (lineText record) :=
  Json.printable_dumps (by decide) (by decide) record

theorem notMem_of_printable {s : PyStr} (hs : Json.Printable s) {c : Char} (hc : c.toNat < 0x20) :
    c ∉ s := fun h => absurd (hs c h) (Nat.not_le.mpr hc)

/-- The payloads of the lines still to read. -/
def payloads (text : PyStr) : List Json := (fileLinesFrom [] text).filterMap jsonlPayload

theorem lineText_braced (items : List (PyStr × Json)) :
    ∃ s, lineText (.obj items) = '\x7b' :: s ++ ['\x7d'] := by
  rw [lineText, Json.dumps]
  exact ⟨_, rfl⟩

theorem strip_braced (s : PyStr) : strip ('\x7b' :: s ++ ['\x7d']) = '\x7b' :: s ++ ['\x7d'] := by
  refine strip_eq_self ?_ fun c hc => ?_
  · rintro c ⟨⟩
    decide
  · rw [List.getLast?_append, List.getLast?_singleton] at hc
    cases hc
    decide

theorem jsonlPayload_newline (line : PyStr) : jsonlPayload (line ++ ['\n']) = jsonlPayload line := by
  have hs : strip (line ++ ['\n']) = strip line := strip_append_space (by decide)
  rw [jsonlPayload, hs]
  rfl

/-- A whole line yields its record. -/
theorem jsonlPayload_record (hw : Writable py record) (hd : record.distinctKeys = true) :
    jsonlPayload (lineText record) = some record := by
  obtain ⟨items, rfl⟩ := hw.object
  obtain ⟨s, hs⟩ := lineText_braced items
  have hparse : Json.parse (lineText (.obj items)) = some (.obj items) := by
    have h : Json.parse (lineText (.obj items) ++ []) = some (.obj items) :=
      Json.parse_dumps false hd (by simp)
    rwa [List.append_nil] at h
  have hstrip : strip (lineText (.obj items)) = lineText (.obj items) := by
    rw [hs]
    exact strip_braced s
  have hne : lineText (.obj items) ≠ [] := by
    rw [hs]
    simp
  simp only [jsonlPayload, hstrip, if_neg hne, hparse]

theorem payloads_line (hl : '\n' ∉ line) (t : PyStr) :
    payloads (line ++ '\n' :: t) = (jsonlPayload line).toList ++ payloads t := by
  rw [payloads, fileLinesFrom_line [] hl, List.reverse_nil, List.nil_append, List.filterMap_cons,
    jsonlPayload_newline]
  cases jsonlPayload line <;> rfl

/-- The lines of whole records yield them. -/
theorem payloads_records {records : List Json} (hw : ∀ r ∈ records, Writable py r)
    (hd : ∀ r ∈ records, r.distinctKeys = true) (t : PyStr) :
    payloads ((records.flatMap fun r => lineText r ++ ['\n']) ++ t) = records ++ payloads t := by
  induction records with
  | nil => rfl
  | cons r records ih =>
    have hrec := jsonlPayload_record (hw r List.mem_cons_self) (hd r List.mem_cons_self)
    have hno : '\n' ∉ lineText r := notMem_of_printable (printable_lineText r) (by decide)
    have hline : (r :: records).flatMap (fun r => lineText r ++ ['\n']) ++ t =
        lineText r ++ '\n' :: ((records.flatMap fun r => lineText r ++ ['\n']) ++ t) := by
      simp
    rw [hline, payloads_line hno, hrec, ih (fun r' hr => hw r' (List.mem_cons_of_mem _ hr))
      (fun r' hr => hd r' (List.mem_cons_of_mem _ hr))]
    rfl

/-- A line that was cut, with a whole one after it, is no JSON. -/
theorem parse_torn (hw : Writable py record) {r : Json} (hr : Writable py r) (hne : p ≠ [])
    (hp : p <+: lineText record) : Json.parse (p ++ lineText r) = none := by
  obtain ⟨items, rfl⟩ := hw.object
  obtain ⟨more, rfl⟩ := hr.object
  by_cases hall : p = lineText (.obj items)
  · have h := Json.loads_pair Json.plainHooks (p ++ lineText (.obj more)).length rfl
      spaced_separators (.obj items) more []
    rw [List.append_nil] at h
    rw [hall] at h ⊢
    exact h
  · obtain ⟨q, hq⟩ := hp
    have hpart : encodeUtf8 p <+: encodeUtf8 (lineText (.obj items)) :=
      ⟨encodeUtf8 q, by rw [← encodeUtf8_append, hq]⟩
    have hnil : Json.Neutral [] := by decide
    have htext : encodeUtf8 (p ++ lineText (.obj more)) =
        encodeUtf8 p ++ encodeUtf8 (lineText (.obj more) ++ []) := by
      rw [List.append_nil, encodeUtf8_append]
    exact Json.loads_torn hnil neutral_separators.1 neutral_separators.2 hpart
      (fun he => hne (encodeUtf8_inj he)) (fun he => hall (encodeUtf8_inj he)) htext

/-- What is left of a line at the end of the file yields nothing, unless only its newline is missing. -/
theorem jsonlPayload_cut (hw : Writable py record) (hne : p ≠ []) (hp : p <+: lineText record)
    (hcut : p ≠ lineText record) : jsonlPayload p = none := by
  obtain ⟨items, rfl⟩ := hw.object
  obtain ⟨s, hs⟩ := lineText_braced items
  obtain ⟨a, rfl⟩ : ∃ a, p = '\x7b' :: a := by
    cases p with
    | nil => exact (hne rfl).elim
    | cons c a =>
      rw [hs] at hp
      have hc := (List.cons_prefix_cons.mp hp).1
      rw [hc]
      exact ⟨a, rfl⟩
  obtain ⟨b, hb⟩ : ∃ b, strip ('\x7b' :: a) = '\x7b' :: b := strip_cons (by decide) a
  have hpart : strip ('\x7b' :: a) <+: '\x7b' :: a := by
    have hl : lstrip ('\x7b' :: a) = '\x7b' :: a := lstrip_cons (by decide)
    rw [strip, hl, rstrip, ← List.reverse_suffix, List.reverse_reverse]
    exact List.dropWhile_suffix _
  have hne' : strip ('\x7b' :: a) ≠ [] := by
    rw [hb]
    exact List.cons_ne_nil _ _
  have hcut' : strip ('\x7b' :: a) ≠ lineText (.obj items) := by
    intro he
    rw [he] at hpart
    exact hcut (hp.eq_of_length_le hpart.length_le)
  have hnone : Json.parse (strip ('\x7b' :: a)) = none := by
    obtain ⟨q, hq⟩ := hpart.trans hp
    have hcode : encodeUtf8 (strip ('\x7b' :: a)) <+: encodeUtf8 (lineText (.obj items)) :=
      ⟨encodeUtf8 q, by rw [← encodeUtf8_append, hq]⟩
    exact Json.loads_cut neutral_separators.1 neutral_separators.2 hcode
      (fun he => hne' (encodeUtf8_inj he)) fun he => hcut' (encodeUtf8_inj he)
  simp only [jsonlPayload, if_neg hne', hnone]

/-- The line right after a cut one is lost with it, and no other. -/
theorem payloads_merged (hw : Writable py record) {r : Json} (hr : Writable py r)
    (ha : ∀ r ∈ after, Writable py r) (hda : ∀ r ∈ after, r.distinctKeys = true) (hne : p ≠ [])
    (hp : p <+: lineText record) :
    payloads (p ++ (r :: after).flatMap fun r => lineText r ++ ['\n']) = after := by
  have hno : '\n' ∉ p :=
    fun h => notMem_of_printable (printable_lineText record) (by decide) (hp.subset h)
  have hnor : '\n' ∉ p ++ lineText r := by
    rw [List.mem_append]
    rintro (h | h)
    · exact hno h
    · exact notMem_of_printable (printable_lineText r) (by decide) h
  have hnone : jsonlPayload (p ++ lineText r) = none := by
    have hparse := parse_torn hw hr hne hp
    obtain ⟨items, rfl⟩ := hw.object
    obtain ⟨more, rfl⟩ := hr.object
    obtain ⟨s, hs⟩ := lineText_braced items
    obtain ⟨u, hu⟩ := lineText_braced more
    obtain ⟨a, rfl⟩ : ∃ a, p = '\x7b' :: a := by
      cases p with
      | nil => exact (hne rfl).elim
      | cons c a =>
        rw [hs] at hp
        rw [(List.cons_prefix_cons.mp hp).1]
        exact ⟨a, rfl⟩
    have hbraced : '\x7b' :: a ++ lineText (.obj more) = '\x7b' :: (a ++ '\x7b' :: u) ++ ['\x7d'] := by
      rw [hu]
      simp
    have hstrip : strip ('\x7b' :: a ++ lineText (.obj more)) = '\x7b' :: a ++ lineText (.obj more) := by
      rw [hbraced]
      exact strip_braced _
    simp only [jsonlPayload, hstrip, hparse]
    simp
  have hline : p ++ (r :: after).flatMap (fun r => lineText r ++ ['\n']) =
      (p ++ lineText r) ++ '\n' :: ((after.flatMap fun r => lineText r ++ ['\n']) ++ []) := by
    simp
  have hrest := payloads_records ha hda []
  have hnil : payloads [] = [] := rfl
  rw [hline, payloads_line hnor, hnone, hrest, hnil, List.append_nil]
  rfl

/-- What the lenient reader makes of the rest of a file from the cut on. -/
theorem payloads_torn (hw : Writable py record) (ha : ∀ r ∈ after, Writable py r)
    (hd : record.distinctKeys = true) (hda : ∀ r ∈ after, r.distinctKeys = true) (hne : p ≠ [])
    (hp : p <+: lineText record) :
    ∃ kept, (kept = [] ∨ kept = [record]) ∧
      payloads (p ++ after.flatMap fun r => lineText r ++ ['\n']) = kept ++ after.tail := by
  cases after with
  | nil =>
    have hno : '\n' ∉ p :=
      fun h => notMem_of_printable (printable_lineText record) (by decide) (hp.subset h)
    have hlast : payloads p = (jsonlPayload p).toList := by
      rw [payloads, fileLinesFrom_last [] hno, List.reverse_nil, List.nil_append, if_neg hne,
        List.filterMap_cons]
      cases jsonlPayload p <;> rfl
    rw [List.flatMap_nil, List.append_nil, hlast]
    by_cases hall : p = lineText record
    · rw [hall, jsonlPayload_record hw hd]
      exact ⟨[record], .inr rfl, rfl⟩
    · rw [jsonlPayload_cut hw hne hp hall]
      exact ⟨[], .inl rfl, rfl⟩
  | cons r after =>
    rw [payloads_merged hw (ha r List.mem_cons_self) (fun r' hr => ha r' (List.mem_cons_of_mem _ hr))
      (fun r' hr => hda r' (List.mem_cons_of_mem _ hr)) hne hp]
    exact ⟨[], .inl rfl, rfl⟩

theorem encode_records (records : List Json) : records.flatMap entryLine =
    encodeUtf8 (records.flatMap fun r => lineText r ++ ['\n']) := by
  induction records with
  | nil => rfl
  | cons r records ih => rw [List.flatMap_cons, List.flatMap_cons, encodeUtf8_append, ← ih]; rfl

theorem no_return (records : List Json) : '\r' ∉ records.flatMap fun r => lineText r ++ ['\n'] := by
  intro h
  obtain ⟨r, _, hm⟩ := List.mem_flatMap.mp h
  rcases List.mem_append.mp hm with hm | hm
  · exact notMem_of_printable (printable_lineText r) (by decide) hm
  · revert hm
    decide

/-- The lenient reader of a file cut between two characters. -/
theorem readJsonl_tornFile {k : Nat} (hp : p <+: lineText record ++ ['\n'])
    (hk : k = (encodeUtf8 p).length) (hw : ∀ r ∈ before, Writable py r)
    (hd : ∀ r ∈ before, r.distinctKeys = true) :
    readJsonl (tornFile before record k after) =
      some (before ++ payloads (p ++ after.flatMap fun r => lineText r ++ ['\n'])) := by
  have hcut : (entryLine record).take k = encodeUtf8 p := by
    obtain ⟨q, hq⟩ := hp
    have hline : entryLine record = encodeUtf8 p ++ encodeUtf8 q := by
      rw [← encodeUtf8_append, hq]
      rfl
    rw [hline, hk, List.take_left]
  have hnop : '\r' ∉ p := by
    intro h
    rcases List.mem_append.mp (hp.subset h) with h | h
    · exact notMem_of_printable (printable_lineText record) (by decide) h
    · revert h
      decide
  have hno : '\r' ∉ (before.flatMap fun r => lineText r ++ ['\n']) ++
      (p ++ after.flatMap fun r => lineText r ++ ['\n']) := by
    rw [List.mem_append, List.mem_append]
    rintro (h | h | h)
    · exact no_return before h
    · exact hnop h
    · exact no_return after h
  rw [tornFile_eq, hcut, encode_records, encode_records, ← encodeUtf8_append, ← encodeUtf8_append,
    readJsonl, decodeUtf8_encodeUtf8, Option.map_some, fileLines, universalNewlines_self hno]
  exact congrArg some (payloads_records hw hd _)

end Lenient

/-- An entry with its id. -/
def idRecord (id : PyStr) : Json := .obj [("id".toList, .str id)]

theorem idRecord_writable (py : Interpreter) (hd : 1 ≤ py.dumpsDepth) (id : PyStr) :
    Writable py (idRecord id) := ⟨⟨_, rfl⟩, hd⟩

end Danus.Core
