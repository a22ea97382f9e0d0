import Danus.Lib.JsonRead
import Danus.Lib.Records
import Danus.WritePaper.ReferenceLedger

/-! Verdicts as labelled blocks: a line for each field, `key` first, and `confirmed_metadata` indented
under its own line. -/
namespace Danus.WritePaper.References
open Python

abbrev Obj : Type := List (PyStr × Json)

def keyField : PyStr := "key".toList

/-- The field whose empty value opens a mapping, `_KV_MAPPING_FIELDS`. -/
def metadataField : PyStr := "confirmed_metadata".toList

section Parsing

/-- `v.lower() in ("null", "none", "~", "")` -/
def isNullWord (v : PyStr) : Bool :=
  lower v == "null".toList || lower v == "none".toList || lower v == "~".toList || lower v == []

def isQuoteMark (c : Char) : Bool := c == '"' || c == '\''

/-- One layer of quotes is taken off. -/
def unquote (v : PyStr) : PyStr :=
  if 2 ≤ v.length ∧ v.head? = v.getLast? ∧ v.head?.any isQuoteMark then v.tail.dropLast else v

/-- `_coerce_scalar` -/
def coerceScalar (v : PyStr) : Json :=
  let v := unquote (strip v)
  if isNullWord v then .null else .str v

/-- `[A-Za-z0-9_]` -/
def isFieldChar (c : Char) : Bool := isAlnumAscii c || c == '_'

/-- `[ \t]` -/
def isIndent (c : Char) : Bool := c == ' ' || c == '\t'

/-- `[ \t]?` and what follows. -/
def dropBlank : PyStr → PyStr
  | [] => []
  | c :: cs => if isIndent c then cs else c :: cs

/-- `_KV_TOP_RE.match(line)` -/
def kvTop (line : PyStr) : Option (PyStr × PyStr) :=
  match line.dropWhile isFieldChar with
  | ':' :: rest => if line.head?.any isNameStart then some (line.takeWhile isFieldChar, dropBlank rest) else none
  | _ => none

/-- `_KV_SUB_RE.match(line)` -/
def kvSub (line : PyStr) : Option (PyStr × PyStr) :=
  if line.head?.any isIndent then kvTop (line.dropWhile isIndent) else none

/-- What `_parse_labelled_blocks` has read: the records before, the one it reads, and the mapping that is open. -/
structure Reader where
  records : List Obj
  cur : Option Obj
  openMap : Option PyStr

/-- All records, with the one being read. -/
def Reader.all (r : Reader) : List Obj := r.records ++ r.cur.toList

/-- `mapping[name] = val`, where the value is no null; the mapping is made where there is none. -/
def addMember (cur : Obj) (field : PyStr) (member : PyStr × PyStr) : Obj :=
  let (base, mapping) := match cur.lookup field with
    | some (.obj items) => (cur, items)
    | _ => (Json.setItem cur (field, .obj []), [])
  match coerceScalar member.2 with
  | .null => base
  | val => Json.setItem base (field, .obj (Json.setItem mapping (member.1, val)))

/-- Blank lines and code fences. -/
def isFiller (line : PyStr) : Bool := "```".toList.isPrefixOf (lstrip line) || strip line == []

/-- The lines of a record. -/
def Reader.member (r : Reader) (cur : Obj) (line : PyStr) : Reader :=
  match kvSub line, r.openMap with
  | some m, some field => { r with cur := some (addMember cur field m) }
  | _, _ =>
    match kvTop line with
    | none => r
    | some (field, rawval) =>
      if strip rawval = [] ∧ field = metadataField then
        { r with cur := some (Json.setItem cur (field, .obj [])), openMap := some field }
      else { r with cur := some (Json.setItem cur (field, coerceScalar rawval)), openMap := none }

/-- The value of a line that starts a record. -/
def recordStart (line : PyStr) : Option PyStr := ((kvTop line).filter fun p => p.1 == keyField).map Prod.snd

def Reader.step (r : Reader) (line : PyStr) : Reader :=
  if isFiller line then { r with openMap := none }
  else
    match recordStart line, r.cur with
    | some value, _ => ⟨r.all, some [(keyField, coerceScalar value)], none⟩
    | none, none => r
    | none, some cur => r.member cur line

/-- `_parse_labelled_blocks` -/
def parseLabelledBlocks (text : PyStr) : List Obj := ((splitlines text).foldl Reader.step ⟨[], none, none⟩).all

end Parsing

section Printing

/-- A value as it is written on its line: in quotes or without, or no value. -/
inductive Scalar where
  | null
  | plain (s : PyStr)
  | quoted (mark : Char) (s : PyStr) (isMark : isQuoteMark mark = true)

def Scalar.text : Scalar → PyStr
  | .null => "null".toList
  | .plain s => s
  | .quoted mark s _ => mark :: s ++ [mark]

def Scalar.value : Scalar → Json
  | .null => .null
  | .plain s | .quoted _ s _ => .str s

/-- What is written is read back: no null word, and without quotes no blank around it either. -/
def Scalar.Legible : Scalar → Prop
  | .null => True
  | .plain s => strip s = s ∧ unquote s = s ∧ isNullWord s = false
  | .quoted _ s _ => isNullWord s = false

def IsFieldName (name : PyStr) : Prop := name.head?.any isNameStart = true ∧ ∀ c ∈ name, isFieldChar c = true

/-- An indented line. -/
structure Member where
  indent : PyStr
  name : PyStr
  value : Scalar
  indented : indent ≠ [] ∧ ∀ c ∈ indent, isIndent c = true
  named : IsFieldName name

def valueLine (name : PyStr) (value : Scalar) : PyStr := name ++ ':' :: ' ' :: value.text

/-- A field of a record: its line, or the metadata with the lines under it. -/
inductive Entry where
  | scalar (name : PyStr) (value : Scalar) (named : IsFieldName name) (plain : name ≠ metadataField)
  | metadata (members : List Member) (distinct : (members.map Member.name).Nodup)
  | noMetadata

def Entry.name : Entry → PyStr
  | .scalar name _ _ _ => name
  | .metadata _ _ | .noMetadata => metadataField

def Entry.lines : Entry → List PyStr
  | .scalar name value _ _ => [valueLine name value]
  | .metadata members _ => (metadataField ++ [':']) :: members.map fun m => m.indent ++ valueLine m.name m.value
  | .noMetadata => [valueLine metadataField .null]

/-- The field's value. -/
def Entry.value : Entry → Json
  | .scalar _ value _ _ => value.value
  | .metadata members _ => .obj (members.map fun m => (m.name, m.value.value))
  | .noMetadata => .null

def Entry.Legible : Entry → Prop
  | .scalar _ value _ _ => value.Legible
  | .metadata members _ => ∀ m ∈ members, m.value.value ≠ .null ∧ m.value.Legible
  | .noMetadata => True

/-- A record, with the blank lines and fences after it. -/
structure Block where
  key : Scalar
  entries : List Entry
  fillers : List PyStr
  distinct : (keyField :: entries.map Entry.name).Nodup
  filling : ∀ line ∈ fillers, isFiller line = true

def Block.lines (b : Block) : List PyStr :=
  valueLine keyField b.key :: b.entries.flatMap Entry.lines ++ b.fillers

/-- The object that the block says. -/
def Block.obj (b : Block) : Obj := (keyField, b.key.value) :: b.entries.map fun e => (e.name, e.value)

def Block.Legible (b : Block) : Prop := b.key.Legible ∧ ∀ e ∈ b.entries, e.Legible

end Printing

section Scalars
variable {s v : PyStr}

theorem strip_isInfix (s : PyStr) : strip s <:+: s := by
  have hl : lstrip s <:+ s := List.dropWhile_suffix _
  have hr : rstrip (lstrip s) <+: lstrip s := by
    rw [rstrip, ← List.reverse_suffix, List.reverse_reverse]
    exact List.dropWhile_suffix _
  exact hr.isInfix.trans hl.isInfix

theorem unquote_eq_or (v : PyStr) : unquote v = v ∨ (unquote v).length < v.length := by
  unfold unquote
  split_ifs with h
  · right
    rw [List.length_dropLast, List.length_tail]
    omega
  · exact .inl rfl

/-- A text is read as itself if and only if nothing is taken off and it is no null word. -/
theorem coerceScalar_self :
    coerceScalar s = .str s ↔ strip s = s ∧ unquote s = s ∧ isNullWord s = false := by
  unfold coerceScalar
  constructor
  · intro h
    simp only at h
    split_ifs at h with hn
    rw [Json.str.injEq] at h
    have hlen := (strip_isInfix s).length_le
    have hstrip : strip s = s := by
      rcases unquote_eq_or (strip s) with hu | hu
      · exact hu.symm.trans h
      · rw [h] at hu
        omega
    rw [h, Bool.not_eq_true] at hn
    rw [hstrip] at h
    exact ⟨hstrip, h, hn⟩
  · rintro ⟨hs, hu, hn⟩
    simp only [hs, hu, hn, Bool.false_eq_true, if_false]

theorem isSpace_quoteMark {mark : Char} (hm : isQuoteMark mark = true) : isSpace mark = false := by
  simp only [isQuoteMark, Bool.or_eq_true, beq_iff_eq] at hm
  rcases hm with rfl | rfl <;> decide

theorem coerceScalar_quoted {mark : Char} (hm : isQuoteMark mark = true) (s : PyStr) :
    coerceScalar (mark :: s ++ [mark]) = if isNullWord s then .null else .str s := by
  have hspace := isSpace_quoteMark hm
  have hstrip : strip (mark :: s ++ [mark]) = mark :: s ++ [mark] := by
    apply strip_eq_self
    · intro c hc
      cases hc
      exact hspace
    · intro c hc
      rw [List.getLast?_append, List.getLast?_singleton] at hc
      cases hc
      exact hspace
  have hlast : (mark :: s ++ [mark]).getLast? = some mark := by
    rw [List.getLast?_append, List.getLast?_singleton]
    rfl
  have hunquote : unquote (mark :: s ++ [mark]) = s := by
    rw [unquote, if_pos ⟨by simp, hlast.symm, hm⟩]
    simp
  unfold coerceScalar
  simp only [hstrip, hunquote]

/-- A value is read back if and only if it is legible. -/
theorem Scalar.coerce_text (x : Scalar) : coerceScalar x.text = x.value ↔ x.Legible := by
  cases x with
  | null =>
    have h : coerceScalar "null".toList = .null := by
      unfold coerceScalar
      rw [if_pos (by decide)]
    exact ⟨fun _ => trivial, fun _ => h⟩
  | plain s => exact coerceScalar_self
  | quoted mark s hm =>
    rw [Scalar.text, coerceScalar_quoted hm]
    unfold Scalar.value Scalar.Legible
    split_ifs with h
    · simp [h]
    · simp [h]

/-- A text or no value. -/
theorem coerceScalar_cases (v : PyStr) : coerceScalar v = .null ∨ ∃ s, coerceScalar v = .str s := by
  unfold coerceScalar
  simp only
  split_ifs
  · exact .inl rfl
  · exact .inr ⟨_, rfl⟩

end Scalars

section Lines
variable {name value line : PyStr} {r : Reader} {cur : Obj}

theorem isSpace_of_isIndent {c : Char} (h : isIndent c = true) : isSpace c = true := by
  simp only [isIndent, Bool.or_eq_true, beq_iff_eq] at h
  rcases h with rfl | rfl <;> decide

theorem fieldChar_cases {c : Char} (h : isFieldChar c = true) : isSpace c = false ∧ isIndent c = false ∧ c ≠ '`' := by
  have hrange : 48 ≤ c.toNat ∧ c.toNat ≤ 57 ∨ 97 ≤ c.toNat ∧ c.toNat ≤ 122 ∨ 65 ≤ c.toNat ∧ c.toNat ≤ 90 ∨
      c.toNat = 95 := by
    simp only [isFieldChar, isAlnumAscii, Bool.or_eq_true, Bool.and_eq_true, decide_eq_true_eq, beq_iff_eq,
      Char.le_def, UInt32.le_iff_toNat_le] at h
    rcases h with ((h | h) | h) | rfl
    · exact .inl h
    · exact .inr (.inl h)
    · exact .inr (.inr (.inl h))
    · exact .inr (.inr (.inr rfl))
  refine ⟨?_, ?_, ?_⟩
  · simp only [isSpace, Bool.or_eq_false_iff, Bool.and_eq_false_iff, decide_eq_false_iff_not, beq_eq_false_iff_ne]
    omega
  · simp only [isIndent, Bool.or_eq_false_iff, beq_eq_false_iff_ne]
    constructor <;> rintro rfl <;> revert hrange <;> decide
  · rintro rfl
    revert hrange
    decide

/-- A line of a field is read as it was written. -/
theorem kvTop_field (hn : IsFieldName name) (rest : PyStr) :
    kvTop (name ++ ':' :: rest) = some (name, dropBlank rest) := by
  have hcolon : isFieldChar ':' = false := by decide
  obtain ⟨hhead, hall⟩ := hn
  cases name with
  | nil => cases hhead
  | cons c cs =>
    unfold kvTop
    rw [List.dropWhile_append_of_pos hall, List.dropWhile_cons_of_neg (by simp [hcolon]),
      List.takeWhile_append_of_pos hall, List.takeWhile_cons_of_neg (by simp [hcolon]), List.append_nil]
    exact if_pos hhead

theorem kvTop_valueLine (hn : IsFieldName name) (x : Scalar) : kvTop (valueLine name x) = some (name, x.text) :=
  kvTop_field hn _

/-- A line that starts with a field is neither blank nor a fence. -/
theorem isFiller_field (hn : IsFieldName name) (indent rest : PyStr) (hi : ∀ c ∈ indent, isIndent c = true) :
    isFiller (indent ++ (name ++ rest)) = false := by
  obtain ⟨hhead, hall⟩ := hn
  cases name with
  | nil => cases hhead
  | cons c cs =>
    obtain ⟨hspace, _, htick⟩ := fieldChar_cases (hall c List.mem_cons_self)
    have hl : lstrip (indent ++ (c :: cs ++ rest)) = c :: (cs ++ rest) := by
      rw [lstrip, List.dropWhile_append_of_pos fun d hd => isSpace_of_isIndent (hi d hd), List.cons_append,
        List.dropWhile_cons_of_neg (by simp [hspace])]
    obtain ⟨t, ht⟩ := strip_cons hspace (cs ++ rest)
    rw [strip, lstrip_cons hspace] at ht
    rw [isFiller, strip, hl, ht]
    simp [List.isPrefixOf, Ne.symm htick]

theorem kvSub_field (hn : IsFieldName name) (rest : PyStr) : kvSub (name ++ rest) = none := by
  obtain ⟨hhead, hall⟩ := hn
  cases name with
  | nil => cases hhead
  | cons c cs =>
    have hblank := (fieldChar_cases (hall c List.mem_cons_self)).2.1
    simp [kvSub, hblank]

theorem Member.kvSub_line (m : Member) :
    kvSub (m.indent ++ valueLine m.name m.value) = some (m.name, m.value.text) := by
  obtain ⟨hne, hall⟩ := m.indented
  have hhead : (m.indent ++ valueLine m.name m.value).head?.any isIndent = true := by
    cases hi : m.indent with
    | nil => exact (hne hi).elim
    | cons c cs => exact hall c (by simp [hi])
  have hline : (valueLine m.name m.value).dropWhile isIndent = valueLine m.name m.value := by
    obtain ⟨hstart, hchars⟩ := m.named
    unfold valueLine
    cases hm : m.name with
    | nil =>
      rw [hm] at hstart
      cases hstart
    | cons c cs =>
      have hblank := (fieldChar_cases (hchars c (by simp [hm]))).2.1
      rw [List.cons_append, List.dropWhile_cons_of_neg (by simp [hblank])]
  rw [kvSub, if_pos hhead, List.dropWhile_append_of_pos hall, hline]
  exact kvTop_valueLine m.named m.value

theorem Member.kvTop_line (m : Member) : kvTop (m.indent ++ valueLine m.name m.value) = none := by
  obtain ⟨hne, hall⟩ := m.indented
  cases hi : m.indent with
  | nil => exact (hne hi).elim
  | cons c cs =>
    have hc := hall c (by simp [hi])
    have hfield : isFieldChar c = false := by
      by_contra h
      rw [(fieldChar_cases (Bool.eq_true_of_not_eq_false h)).2.1] at hc
      cases hc
    have hcolon : c ≠ ':' := by
      rintro rfl
      revert hc
      decide
    unfold kvTop
    rw [List.cons_append, List.dropWhile_cons_of_neg (by simp [hfield])]
    split
    · next rest he => exact (hcolon (List.cons.inj he).1).elim
    · rfl

theorem setItem_new {k : PyStr} (hk : ∀ p ∈ cur, p.1 ≠ k) (v : Json) : Json.setItem cur (k, v) = cur ++ [(k, v)] := by
  have hany : cur.any (·.1 == k) = false := by
    rw [List.any_eq_false]
    intro p hp he
    exact hk p hp (beq_iff_eq.mp he)
  rw [Json.setItem, hany, if_neg Bool.false_ne_true]

theorem setItem_last {k : PyStr} (hk : ∀ p ∈ cur, p.1 ≠ k) (v w : Json) :
    Json.setItem (cur ++ [(k, v)]) (k, w) = cur ++ [(k, w)] := by
  have hsame : (cur.map fun kv => if kv.1 == k then (k, w) else kv) = cur := by
    refine (List.map_congr_left fun p hp => ?_).trans (List.map_id cur)
    rw [beq_false_of_ne (hk p hp)]
    rfl
  rw [Json.setItem, if_pos (by simp), List.map_append, hsame]
  simp

theorem lookup_last {k : PyStr} (hk : ∀ p ∈ cur, p.1 ≠ k) (v : Json) : (cur ++ [(k, v)]).lookup k = some v := by
  have hnone : cur.lookup k = none := by
    cases h : cur.lookup k with
    | none => rfl
    | some w => exact (hk _ (mem_of_lookup_eq_some h) rfl).elim
  rw [List.lookup_append, hnone, Option.none_or, lookup_cons_self]

theorem recordStart_field (hn : IsFieldName name) (hne : name ≠ keyField) (rest : PyStr) :
    recordStart (name ++ ':' :: rest) = none := by
  rw [recordStart, kvTop_field hn, Option.filter_some_neg (by simp [hne])]
  rfl

/-- A field's line at the top of a record. -/
theorem step_field (hn : IsFieldName name) (hne : name ≠ keyField) (hcur : r.cur = some cur) (rest : PyStr) :
    r.step (name ++ ':' :: rest) =
      if strip (dropBlank rest) = [] ∧ name = metadataField then
        { r with cur := some (Json.setItem cur (name, .obj [])), openMap := some name }
      else { r with cur := some (Json.setItem cur (name, coerceScalar (dropBlank rest))), openMap := none } := by
  have hfiller : isFiller (name ++ ':' :: rest) = false := isFiller_field hn [] _ (by simp)
  rw [Reader.step, hfiller, if_neg Bool.false_ne_true, recordStart_field hn hne, hcur]
  simp only [Reader.member, kvSub_field hn, kvTop_field hn]

/-- A line of an open mapping. -/
theorem Member.step_line (m : Member) (hcur : r.cur = some cur) {field : PyStr} (hopen : r.openMap = some field) :
    r.step (m.indent ++ valueLine m.name m.value) =
      { r with cur := some (addMember cur field (m.name, m.value.text)) } := by
  have hfiller : isFiller (m.indent ++ valueLine m.name m.value) = false :=
    isFiller_field m.named m.indent _ m.indented.2
  have hstart : recordStart (m.indent ++ valueLine m.name m.value) = none := by
    rw [recordStart, m.kvTop_line]
    rfl
  rw [Reader.step, hfiller, if_neg Bool.false_ne_true, hstart, hcur]
  simp only [Reader.member, m.kvSub_line, hopen]

/-- What is read of a member; a null is left out. -/
def Member.read (m : Member) : Option (PyStr × Json) :=
  match coerceScalar m.value.text with
  | .null => none
  | v => some (m.name, v)

def Entry.read : Entry → Json
  | .scalar _ value _ _ => coerceScalar value.text
  | .metadata members _ => .obj (members.filterMap Member.read)
  | .noMetadata => .null

/-- The object that is read of the block. -/
def Block.read (b : Block) : Obj := (keyField, coerceScalar b.key.text) :: b.entries.map fun e => (e.name, e.read)

theorem Member.addMember_eq (m : Member) {field : PyStr} (hk : ∀ p ∈ cur, p.1 ≠ field) {items : Obj}
    (hitems : ∀ p ∈ items, p.1 ≠ m.name) :
    addMember (cur ++ [(field, .obj items)]) field (m.name, m.value.text) =
      cur ++ [(field, .obj (items ++ m.read.toList))] := by
  unfold addMember Member.read
  rw [lookup_last hk]
  rcases coerceScalar_cases m.value.text with h | ⟨s, h⟩
  · simp [h]
  · simp only [h, Option.toList_some]
    rw [setItem_new hitems, setItem_last hk]

/-- The lines of a mapping, one after another. -/
theorem members_run {members : List Member} {field : PyStr} (hk : ∀ p ∈ cur, p.1 ≠ field) {items : Obj}
    (hn : (items.map Prod.fst ++ members.map Member.name).Nodup) (recs : List Obj) :
    (members.map fun m => m.indent ++ valueLine m.name m.value).foldl Reader.step
        ⟨recs, some (cur ++ [(field, .obj items)]), some field⟩ =
      ⟨recs, some (cur ++ [(field, .obj (items ++ members.filterMap Member.read))]), some field⟩ := by
  induction members generalizing items with
  | nil => simp
  | cons m members ih =>
    have hnew : ∀ p ∈ items, p.1 ≠ m.name := fun p hp =>
      (List.nodup_append.mp hn).2.2 p.1 (List.mem_map_of_mem hp) m.name (by simp)
    have hread : List.Sublist ((items ++ m.read.toList).map Prod.fst) (items.map Prod.fst ++ [m.name]) := by
      rw [List.map_append]
      refine List.Sublist.append_left ?_ _
      unfold Member.read
      split <;> simp
    have hnext : ((items ++ m.read.toList).map Prod.fst ++ members.map Member.name).Nodup := by
      refine List.Nodup.sublist (hread.append_right _) ?_
      simpa using hn
    rw [List.map_cons, List.foldl_cons, m.step_line rfl rfl, m.addMember_eq hk hnew, ih hnext]
    cases h : m.read <;> simp [h]

theorem metadata_named : IsFieldName metadataField := by
  unfold IsFieldName
  decide

theorem key_named : IsFieldName keyField := by
  unfold IsFieldName
  decide

theorem metadata_ne_key : metadataField ≠ keyField := by decide

theorem coerceScalar_null : coerceScalar Scalar.null.text = .null := (Scalar.coerce_text .null).mpr trivial

/-- The lines of one field add it to the record. -/
theorem Entry.run (e : Entry) (hk : ∀ p ∈ cur, p.1 ≠ e.name) (hne : e.name ≠ keyField) (recs : List Obj)
    (op : Option PyStr) :
    ∃ op', e.lines.foldl Reader.step ⟨recs, some cur, op⟩ = ⟨recs, some (cur ++ [(e.name, e.read)]), op'⟩ := by
  cases e with
  | scalar name value named plain =>
    refine ⟨none, ?_⟩
    have hline := step_field (r := ⟨recs, some cur, op⟩) named hne rfl (' ' :: value.text)
    have hset (v : Json) : Json.setItem cur (name, v) = cur ++ [(name, v)] := setItem_new hk v
    rw [if_neg fun h => plain h.2, hset] at hline
    rw [Entry.lines, List.foldl_cons, List.foldl_nil, valueLine, hline]
    rfl
  | metadata members distinct =>
    refine ⟨some metadataField, ?_⟩
    have hline := step_field (r := ⟨recs, some cur, op⟩) metadata_named metadata_ne_key rfl []
    have hset (v : Json) : Json.setItem cur (metadataField, v) = cur ++ [(metadataField, v)] := setItem_new hk v
    rw [if_pos ⟨by decide, rfl⟩, hset] at hline
    rw [Entry.lines, List.foldl_cons, hline]
    have hnames : (([] : Obj).map Prod.fst ++ members.map Member.name).Nodup := by simpa using distinct
    have hrun := members_run hk hnames recs
    rwa [List.nil_append] at hrun
  | noMetadata =>
    refine ⟨none, ?_⟩
    have hline := step_field (r := ⟨recs, some cur, op⟩) metadata_named metadata_ne_key rfl (' ' :: Scalar.null.text)
    have hset (v : Json) : Json.setItem cur (metadataField, v) = cur ++ [(metadataField, v)] := setItem_new hk v
    rw [if_neg fun h => absurd h.1 (by decide), hset] at hline
    rw [Entry.lines, List.foldl_cons, List.foldl_nil, valueLine, hline, show dropBlank (' ' :: Scalar.null.text) =
      Scalar.null.text from rfl, coerceScalar_null]
    rfl

theorem entries_run {entries : List Entry} (hn : (cur.map Prod.fst ++ entries.map Entry.name).Nodup)
    (hne : ∀ e ∈ entries, e.name ≠ keyField) (recs : List Obj) (op : Option PyStr) :
    ∃ op', (entries.flatMap Entry.lines).foldl Reader.step ⟨recs, some cur, op⟩ =
      ⟨recs, some (cur ++ entries.map fun e => (e.name, e.read)), op'⟩ := by
  induction entries generalizing cur op with
  | nil => exact ⟨op, by simp⟩
  | cons e entries ih =>
    have hnew : ∀ p ∈ cur, p.1 ≠ e.name := fun p hp =>
      (List.nodup_append.mp hn).2.2 p.1 (List.mem_map_of_mem hp) e.name (by simp)
    obtain ⟨op₁, hfirst⟩ := e.run hnew (hne e List.mem_cons_self) recs op
    have hn' : ((cur ++ [(e.name, e.read)]).map Prod.fst ++ entries.map Entry.name).Nodup := by simpa using hn
    obtain ⟨op₂, hrest⟩ := ih hn' (fun e' he => hne e' (List.mem_cons_of_mem _ he)) op₁
    refine ⟨op₂, ?_⟩
    rw [List.flatMap_cons, List.foldl_append, hfirst, hrest]
    simp

theorem fillers_run {fillers : List PyStr} (hf : ∀ line ∈ fillers, isFiller line = true) (r : Reader) :
    ∃ op, fillers.foldl Reader.step r = { r with openMap := op } := by
  induction fillers generalizing r with
  | nil => exact ⟨r.openMap, rfl⟩
  | cons line fillers ih =>
    obtain ⟨op, h⟩ := ih (fun l hl => hf l (List.mem_cons_of_mem _ hl)) { r with openMap := none }
    refine ⟨op, ?_⟩
    rw [List.foldl_cons, Reader.step, if_pos (hf line List.mem_cons_self), h]

/-- The lines of one block close the record before it and are read as its own. -/
theorem Block.run (b : Block) (r : Reader) :
    ∃ op, b.lines.foldl Reader.step r = ⟨r.all, some b.read, op⟩ := by
  obtain ⟨hkey, hnames⟩ := List.nodup_cons.mp b.distinct
  have hstart : r.step (valueLine keyField b.key) = ⟨r.all, some [(keyField, coerceScalar b.key.text)], none⟩ := by
    have hfiller : isFiller (valueLine keyField b.key) = false := isFiller_field key_named [] _ (by simp)
    rw [Reader.step, hfiller, if_neg Bool.false_ne_true, recordStart, kvTop_valueLine key_named,
      Option.filter_some_pos (by simp)]
    rfl
  have hdistinct : ([(keyField, coerceScalar b.key.text)].map Prod.fst ++ b.entries.map Entry.name).Nodup :=
    b.distinct
  obtain ⟨op, hentries⟩ := entries_run hdistinct (fun e he h => hkey (h ▸ List.mem_map_of_mem he)) r.all none
  obtain ⟨op', hfill⟩ := fillers_run b.filling ⟨r.all, some b.read, op⟩
  refine ⟨op', ?_⟩
  rw [Block.lines, List.foldl_append, List.foldl_cons, hstart, hentries]
  exact hfill

theorem blocks_run (bs : List Block) (r : Reader) :
    ((bs.flatMap Block.lines).foldl Reader.step r).all = r.all ++ bs.map Block.read := by
  induction bs generalizing r with
  | nil => simp
  | cons b bs ih =>
    obtain ⟨op, h⟩ := b.run r
    rw [List.flatMap_cons, List.foldl_append, h, ih]
    simp [Reader.all]

/-- Lines in front of the first record say nothing. -/
theorem lead_run {lead : List PyStr} (hl : ∀ line ∈ lead, recordStart line = none) (op : Option PyStr) :
    ∃ op', lead.foldl Reader.step ⟨[], none, op⟩ = ⟨[], none, op'⟩ := by
  induction lead generalizing op with
  | nil => exact ⟨op, rfl⟩
  | cons line lead ih =>
    have hstep : ∃ op', Reader.step ⟨[], none, op⟩ line = ⟨[], none, op'⟩ := by
      unfold Reader.step
      rw [hl line List.mem_cons_self]
      split_ifs
      · exact ⟨none, rfl⟩
      · exact ⟨op, rfl⟩
    obtain ⟨op₁, h₁⟩ := hstep
    rw [List.foldl_cons, h₁]
    exact ih (fun l h => hl l (List.mem_cons_of_mem _ h)) op₁

/-- Every block is read, in order. -/
theorem parseLabelledBlocks_eq {text : PyStr} {lead : List PyStr} {bs : List Block}
    (hl : ∀ line ∈ lead, recordStart line = none) (h : splitlines text = lead ++ bs.flatMap Block.lines) :
    parseLabelledBlocks text = bs.map Block.read := by
  obtain ⟨op, hlead⟩ := lead_run hl none
  rw [parseLabelledBlocks, h, List.foldl_append, hlead, blocks_run]
  rfl

end Lines

section Reading

theorem Member.read_eq (m : Member) :
    m.read = some (m.name, m.value.value) ↔ m.value.value ≠ .null ∧ m.value.Legible := by
  rw [← Scalar.coerce_text]
  unfold Member.read
  rcases coerceScalar_cases m.value.text with h | ⟨s, h⟩
  · simp [h, eq_comm]
  · simp only [h, Option.some.injEq, Prod.mk.injEq, true_and]
    constructor
    · intro he
      exact ⟨by rw [← he]; simp, he⟩
    · exact fun he => he.2

theorem Entry.read_eq (e : Entry) : e.read = e.value ↔ e.Legible := by
  cases e with
  | scalar name value named plain => exact value.coerce_text
  | metadata members distinct =>
    unfold Entry.read Entry.value Entry.Legible
    rw [Json.obj.injEq, List.filterMap_eq_map_iff_forall_eq_some]
    exact forall₂_congr fun m _ => m.read_eq
  | noMetadata => exact iff_of_true rfl trivial

/-- A block is read back if and only if it is legible. -/
theorem Block.read_eq (b : Block) : b.read = b.obj ↔ b.Legible := by
  unfold Block.read Block.obj Block.Legible
  rw [List.cons.injEq, Prod.mk.injEq, List.map_inj_left, ← Scalar.coerce_text]
  simp only [true_and, Prod.mk.injEq]
  exact and_congr_right fun _ => forall₂_congr fun e _ => e.read_eq

end Reading
end Danus.WritePaper.References
