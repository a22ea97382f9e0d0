import Danus.WritePaper.FactOrder
import Danus.Observability.App
import Danus.Lib.Checks
import Danus.Lib.Records

/-! The targets of a paper: what `danus finalize` records of them, and what is read of the record afterwards. -/
namespace Danus.WritePaper.FinalizedTargets
open Python FactGraph FactOrder

section Letters

/-- One letter when case is ignored, with the characters outside ASCII that count as an `i` or an `s`. -/
def sameLetter (l c : Char) : Bool :=
  c == l || c.toLower == l || (l == 'i' && (c.toNat == 0x130 || c.toNat == 0x131)) || (l == 's' && c.toNat == 0x17f)

/-- What follows these letters, in any case. -/
def dropLetters : PyStr → PyStr → Option PyStr
  | [], s => some s
  | _, [] => none
  | l :: ls, c :: cs => if sameLetter l c then dropLetters ls cs else none

/-- What follows a colon with spaces about it. -/
def afterColon (s : PyStr) : Option PyStr :=
  match s.dropWhile isSpace with
  | ':' :: cs => some (cs.dropWhile isSpace)
  | _ => none

/-- The line without what `^\s*target(_fact_ids)?\s*:\s*` matches of it. -/
def dropLabel (line : PyStr) : PyStr :=
  let unlabelled := (dropLetters "target".toList (line.dropWhile isSpace)).bind fun rest =>
    ((dropLetters "_fact_ids".toList rest).bind afterColon).or (afterColon rest)
  unlabelled.getD line

/-- The group of `_HEADLINE_FIELD_RE`. -/
def headlineField (line : PyStr) : Option PyStr :=
  ((dropLetters "headline_fact_ids".toList (line.dropWhile isSpace)).bind afterColon).map rstrip

/-- `if id not in ids: ids.append(id)` -/
def appendNew (ids : List PyStr) (id : PyStr) : List PyStr := if id ∈ ids then ids else ids ++ [id]

variable {ls s r : PyStr} {ids acc : List PyStr} {a : PyStr}

theorem mem_dropLetters (h : dropLetters ls s = some r) : ∀ c ∈ r, c ∈ s := by
  induction ls generalizing s with
  | nil =>
    cases s
    all_goals
      rw [dropLetters] at h
      cases h
      exact fun c hc => hc
  | cons l ls ih =>
    cases s with
    | nil => cases h
    | cons d s =>
      rw [dropLetters] at h
      split_ifs at h
      exact fun c hc => List.mem_cons_of_mem d (ih h c hc)

theorem afterColon_none (h : ':' ∉ s) : afterColon s = none := by
  rw [afterColon]
  split
  · next cs hs =>
    refine absurd ?_ h
    have hmem : ':' ∈ s.dropWhile isSpace := by
      rw [hs]
      exact List.mem_cons_self
    exact (List.dropWhile_sublist _).mem hmem
  · rfl

/-- There is no label without a colon. -/
theorem dropLabel_plain (h : ':' ∉ s) : dropLabel s = s := by
  have hnone : (dropLetters "target".toList (s.dropWhile isSpace)).bind (fun rest =>
      ((dropLetters "_fact_ids".toList rest).bind afterColon).or (afterColon rest)) = none := by
    rw [Option.bind_eq_none_iff]
    intro rest hrest
    have hfree : ':' ∉ rest := fun hc => h ((List.dropWhile_sublist _).mem (mem_dropLetters hrest _ hc))
    have hids : (dropLetters "_fact_ids".toList rest).bind afterColon = none := by
      rw [Option.bind_eq_none_iff]
      exact fun t ht => afterColon_none fun hc => hfree (mem_dropLetters ht _ hc)
    rw [hids, afterColon_none hfree, Option.none_or]
  rw [dropLabel, hnone, Option.getD_none]

theorem mem_appendNew : a ∈ ids.foldl appendNew acc ↔ a ∈ acc ∨ a ∈ ids := by
  induction ids generalizing acc with
  | nil => simp
  | cons id ids ih =>
    rw [List.foldl_cons, ih, appendNew]
    split_ifs with hid
    · constructor
      · rintro (h | h)
        · exact .inl h
        · exact .inr (List.mem_cons_of_mem id h)
      · rintro (h | h)
        · exact .inl h
        · rcases List.mem_cons.mp h with rfl | h
          · exact .inl hid
          · exact .inr h
    · rw [List.mem_append, List.mem_singleton, List.mem_cons, or_assoc]

theorem nodup_appendNew (h : acc.Nodup) : (ids.foldl appendNew acc).Nodup := by
  induction ids generalizing acc with
  | nil => exact h
  | cons id ids ih =>
    rw [List.foldl_cons]
    refine ih ?_
    rw [appendNew]
    split_ifs with hid
    · exact h
    · exact List.nodup_append.mpr ⟨h, List.nodup_singleton id,
        fun a ha b hb hab => hid (List.mem_singleton.mp hb ▸ hab ▸ ha)⟩

theorem appendNew_nodup (h : (acc ++ ids).Nodup) : ids.foldl appendNew acc = acc ++ ids := by
  induction ids generalizing acc with
  | nil => exact (List.append_nil acc).symm
  | cons id ids ih =>
    have hid : id ∉ acc := fun hm => (List.nodup_append.mp h).2.2 id hm id List.mem_cons_self rfl
    rw [List.foldl_cons, appendNew, if_neg hid, ih (by simpa using h), List.append_assoc, List.singleton_append]

end Letters

section Tokens

/-- `[A-Za-z0-9_]` -/
def isSlugChar (c : Char) : Bool := isAlnumAscii c || c == '_'

/-- An id that `_TARGET_ID_RE` matches as a whole. -/
def isTargetId (s : PyStr) : Bool :=
  (startsWith "fact_".toList s && s.drop 5 ≠ [] && (s.drop 5).all isSlugChar) ||
    (decide (8 ≤ s.length) && s.all isHex)

variable [Runtime]

/-- What `_TARGET_ID_RE` matches at a place, by whether the character before it is a word character. -/
def matchTarget (before : Bool) (s : PyStr) : Option PyStr :=
  let slug := (s.drop 5).takeWhile isSlugChar
  let hex := s.takeWhile isHex
  if startsWith "fact_".toList s ∧ slug ≠ [] then some ("fact_".toList ++ slug)
  else if before = false ∧ 8 ≤ hex.length ∧ (s.drop hex.length).head?.all (fun c => !Observability.isWordChar c) then
    some hex
  else none

/-- `_TARGET_ID_RE.findall`; the characters that a match has taken are passed over. -/
def findTargets (taken : Nat) (before : Bool) : PyStr → List PyStr
  | [] => []
  | c :: cs =>
    match taken with
    | taken + 1 => findTargets taken (Observability.isWordChar c) cs
    | 0 =>
      match matchTarget before (c :: cs) with
      | some id => id :: findTargets (id.length - 1) (Observability.isWordChar c) cs
      | none => findTargets 0 (Observability.isWordChar c) cs

variable {before : Bool} {taken : Nat} {s id : PyStr}

theorem matchTarget_shape (h : matchTarget before s = some id) : isTargetId id = true := by
  unfold matchTarget at h
  dsimp only at h
  split_ifs at h with hslug hhex
  · obtain rfl := Option.some.inj h
    have hall : ∀ c ∈ (s.drop 5).takeWhile isSlugChar, isSlugChar c = true := fun c hc => List.mem_takeWhile_imp hc
    have hdrop : ("fact_".toList ++ (s.drop 5).takeWhile isSlugChar).drop 5 = (s.drop 5).takeWhile isSlugChar :=
      List.drop_left' rfl
    have hstart : startsWith "fact_".toList ("fact_".toList ++ (s.drop 5).takeWhile isSlugChar) = true :=
      List.isPrefixOf_iff_prefix.mpr (List.prefix_append _ _)
    rw [isTargetId, hdrop, hstart, List.all_eq_true.mpr hall, decide_eq_true hslug.2]
    rfl
  · obtain rfl := Option.some.inj h
    have hall : ∀ c ∈ s.takeWhile isHex, isHex c = true := fun c hc => List.mem_takeWhile_imp hc
    rw [isTargetId, decide_eq_true hhex.2.1, List.all_eq_true.mpr hall, Bool.and_self, Bool.or_true]

/-- All that is found has one of the two shapes. -/
theorem findTargets_shape (taken : Nat) (before : Bool) (s : PyStr) :
    ∀ id ∈ findTargets taken before s, isTargetId id = true := by
  induction s generalizing taken before with
  | nil => exact fun id hid => absurd hid List.not_mem_nil
  | cons c cs ih =>
    cases taken with
    | succ taken => exact ih _ _
    | zero =>
      rw [findTargets]
      cases hm : matchTarget before (c :: cs) with
      | none => exact ih _ _
      | some id =>
        intro id' hid'
        rcases List.mem_cons.mp hid' with rfl | hid'
        · exact matchTarget_shape hm
        · exact ih _ _ id' hid'

theorem findTargets_taken (before : Bool) (s : PyStr) : findTargets s.length before s = [] := by
  induction s generalizing before with
  | nil => rfl
  | cons c cs ih => exact ih _

/-- An id of one of the two shapes is found as itself, and nothing else is in it. -/
theorem findTargets_id (h : isTargetId s = true) : findTargets 0 false s = [s] := by
  have hm : matchTarget false s = some s := by
    rw [isTargetId, Bool.or_eq_true] at h
    unfold matchTarget
    dsimp only
    rcases h with h | h
    · simp only [Bool.and_eq_true, decide_eq_true_eq] at h
      obtain ⟨⟨hstart, hne⟩, hall⟩ := h
      have htake : (s.drop 5).takeWhile isSlugChar = s.drop 5 :=
        List.takeWhile_eq_self_iff.mpr (List.all_eq_true.mp hall)
      rw [htake, if_pos ⟨hstart, hne⟩]
      obtain ⟨t, rfl⟩ := List.isPrefixOf_iff_prefix.mp hstart
      rfl
    · simp only [Bool.and_eq_true, decide_eq_true_eq] at h
      obtain ⟨hlen, hall⟩ := h
      have hnot : ¬ startsWith "fact_".toList s = true := by
        intro hstart
        obtain ⟨t, rfl⟩ := List.isPrefixOf_iff_prefix.mp hstart
        have ht := List.all_eq_true.mp hall 't' (List.mem_append_left _ (by decide))
        revert ht
        decide
      have htake : s.takeWhile isHex = s := List.takeWhile_eq_self_iff.mpr (List.all_eq_true.mp hall)
      rw [if_neg fun hs => hnot hs.1, htake, List.drop_length, if_pos ⟨rfl, hlen, rfl⟩]
  cases s with
  | nil => cases h
  | cons c cs =>
    rw [findTargets, hm]
    dsimp only
    rw [List.length_cons, Nat.add_sub_cancel, findTargets_taken]

end Tokens

section Record
variable [Runtime]

/-- The head of `TARGET.md`. -/
def targetHeader : List PyStr :=
  ["# TARGET — the finalized target theorem(s) for this project".toList, "#".toList,
    "# Written by `danus finalize <project> <fact_id> ...`; read by write-paper".toList,
    "# (assemble.resolve_headline). One fact id per line.".toList, []]

/-- The text that `write_target_fact_ids` writes. -/
def targetText (ids : List PyStr) : PyStr := joinWith ['\n'] (targetHeader ++ ids) ++ ['\n']

/-- The ids on a line of `TARGET.md`. -/
def lineTargets (line : PyStr) : List PyStr :=
  let stripped := strip line
  if stripped = [] ∨ startsWith ['#'] stripped then [] else findTargets 0 false (dropLabel stripped)

/-- The ids in a text of `TARGET.md`. -/
def readTargets (text : PyStr) : List PyStr :=
  ((splitlines (universalNewlines text)).flatMap lineTargets).foldl appendNew []

/-- The ids in a text of `PROJECT_BRIEF.md`. -/
def readHeadline (text : PyStr) : List PyStr :=
  (((splitlines (universalNewlines text)).findSome? headlineField).map (findTargets 0 false)).getD []

variable {ids : List PyStr} {s : PyStr}

theorem lineTargets_comment (h : strip s = [] ∨ startsWith ['#'] (strip s) = true) : lineTargets s = [] := if_pos h

/-- The line of an id of the graph has nothing but the id. -/
theorem lineTargets_id (h : isSafeFactId s = true) : lineTargets s = findTargets 0 false s := by
  obtain ⟨hne, hchars⟩ := isSafeFactId_chars h
  have hstrip : strip s = s := strip_of_noSpace fun c hc => (hchars c hc).2.1
  have hcolon : ':' ∉ s := by
    intro hc
    cases s with
    | nil => cases hc
    | cons d s =>
      simp only [isSafeFactId, Bool.and_eq_true, List.all_eq_true] at h
      rcases List.mem_cons.mp hc with rfl | hc
      · exact absurd h.1 (by decide)
      · exact absurd (h.2 ':' hc) (by decide)
  have hhash : ¬ startsWith ['#'] s = true := by
    cases s with
    | nil => exact absurd rfl hne
    | cons d s =>
      intro hs
      obtain ⟨t, ht⟩ := List.isPrefixOf_iff_prefix.mp hs
      obtain ⟨rfl, -⟩ := List.cons.inj ht
      simp only [isSafeFactId, Bool.and_eq_true] at h
      exact absurd h.1 (by decide)
  rw [lineTargets, hstrip, if_neg fun hs => hs.elim hne hhash, dropLabel_plain hcolon]

theorem readTargets_targetText (h : ∀ id ∈ ids, isSafeFactId id = true) :
    readTargets (targetText ids) = (ids.flatMap (findTargets 0 false)).foldl appendNew [] := by
  have hheader : ∀ l ∈ targetHeader, (∀ c ∈ l, isLineBreak c = false) ∧
      (strip l = [] ∨ startsWith ['#'] (strip l) = true) := by decide +kernel
  have hlines : splitlines (targetText ids) = targetHeader ++ ids := by
    refine splitlines_joinFed (fun l hl => ?_) (List.append_ne_nil_of_left_ne_nil (List.cons_ne_nil _ _) _)
    rcases List.mem_append.mp hl with hl | hl
    · exact (hheader l hl).1
    · exact fun c hc => not_isLineBreak_of_isPlain ((isSafeFactId_chars (h l hl)).2 c hc).1
  have hcomments : targetHeader.flatMap lineTargets = [] :=
    List.flatMap_eq_nil_iff.mpr fun l hl => lineTargets_comment (hheader l hl).2
  have hids : ids.flatMap lineTargets = ids.flatMap (findTargets 0 false) :=
    List.flatMap_congr fun id hid => lineTargets_id (h id hid)
  rw [readTargets, splitlines_universalNewlines, hlines, List.flatMap_append, hcomments, List.nil_append, hids]

/-- The record reads back exactly if every id has a shape that the reader knows. -/
theorem readTargets_iff (hsafe : ∀ id ∈ ids, isSafeFactId id = true) (hn : ids.Nodup) :
    readTargets (targetText ids) = ids ↔ ∀ id ∈ ids, isTargetId id = true := by
  rw [readTargets_targetText hsafe]
  constructor
  · intro heq id hid
    rw [← heq, mem_appendNew] at hid
    obtain ⟨line, -, hfound⟩ := List.mem_flatMap.mp (hid.resolve_left List.not_mem_nil)
    exact findTargets_shape _ _ _ id hfound
  · intro hshape
    have hself : ids.flatMap (findTargets 0 false) = ids := by
      calc ids.flatMap (findTargets 0 false) = ids.flatMap fun id => [id] :=
            List.flatMap_congr fun id hid => findTargets_id (hshape id hid)
        _ = ids := List.flatMap_singleton' ids
    rw [hself, appendNew_nodup (by rwa [List.nil_append]), List.nil_append]

end Record

section Project

/-- A project: the active facts of its graph by their ids, what a reader of the graph raises while one of its
transactions is pending, and the other files by their paths. -/
structure Project where
  name : PyStr
  facts : List (PyStr × PyStr)
  pending : Option GraphError
  files : List PyStr → Option PyStr

/-- How `danus finalize` fails: `SystemExit`, or what the graph raises. -/
inductive FinalizeError where
  | exit (message : PyStr)
  | graph (error : GraphError)

/-- What `do_finalize` returns. -/
inductive Finalized where
  | suggested (ids : List PyStr)
  | recorded (targetFile ids : List PyStr)

/-- `_exists_unchecked` -/
def Project.has (p : Project) (factId : PyStr) : Bool := isSafeFactId factId && (p.facts.lookup factId).isSome

/-- `PROJECT_NAME_RE.match`; its `$` also matches before a newline at the end. -/
def isProjectName (s : PyStr) : Bool := isSafeFactId s || (s.getLast? == some '\n' && isSafeFactId s.dropLast)

/-- `_is_default_paper` -/
def isDefaultPaper (paperId : Option PyStr) : Bool := paperId.getD [] == [] || paperId == some "main".toList

variable [Runtime]

/-- `_assert_graph_readable`, as the snapshot lock of each reader calls it. -/
def Project.readable (p : Project) : Except GraphError Unit :=
  match p.pending with
  | some e => .error e
  | none => .ok ()

/-- `_terminal_facts` -/
def terminalFacts (p : Project) : Except GraphError (List PyStr) := do
  p.readable
  let allIds := sortStr (p.facts.map Prod.fst)
  let predecessors ← allIds.mapM fun id =>
    if isSafeFactId id then .ok (parseFrontmatter ((p.facts.lookup id).getD [])).predecessors
    else .error (.value ("invalid fact_id: ".toList ++ Runtime.reprText id))
  return allIds.filter (· ∉ predecessors.flatten)

/-- `paper_workspace`, or the message of the error. -/
def paperWorkspace (paperId : Option PyStr) : Except PyStr (List PyStr) :=
  if isDefaultPaper paperId then .ok ["paper".toList]
  else if isProjectName (paperId.getD []) then .ok ["papers".toList, paperId.getD []]
  else .error ("invalid paper_id: ".toList ++ Runtime.reprText (paperId.getD []) ++
    " (must be a single safe path segment matching ^[A-Za-z0-9][A-Za-z0-9._-]*$)".toList)

/-- `paper_target_path` -/
def paperTargetPath (paperId : Option PyStr) : Except PyStr (List PyStr) :=
  if isDefaultPaper paperId then .ok ["TARGET.md".toList]
  else (paperWorkspace paperId).map fun dir => dir ++ ["TARGET.md".toList]

/-- `brief_headline_fact_ids` -/
def briefHeadlineFactIds (p : Project) (paperId : Option PyStr) : Except PyStr (List PyStr) :=
  (paperWorkspace paperId).map fun dir => ((p.files (dir ++ ["PROJECT_BRIEF.md".toList])).map readHeadline).getD []

/-- `target_fact_ids` -/
def targetFactIds (p : Project) (paperId : Option PyStr) : Except PyStr (List PyStr) :=
  (paperTargetPath paperId).map fun path => ((p.files path).map readTargets).getD []

/-- `resolve_headline`, on the files of a project. -/
def resolveHeadlineOf (p : Project) (headline : Option (List PyStr)) (paperId : Option PyStr) :
    Except PyStr (List PyStr × HeadlineSource) :=
  if headline.getD [] ≠ [] then .ok (resolveHeadline [] [] headline)
  else do
    let fromBrief ← briefHeadlineFactIds p paperId
    let fromTarget ← targetFactIds p paperId
    return resolveHeadline fromBrief fromTarget headline

/-- `do_finalize`, of a project that exists. -/
def doFinalize (p : Project) (factIds : List PyStr) (paperId : Option PyStr) :
    Except FinalizeError (Project × Finalized) := do
  if factIds = [] then
    return (p, .suggested (← (terminalFacts p).mapError .graph))
  p.readable.mapError .graph
  let unknown := factIds.filter fun id => !p.has id
  unless unknown = [] do
    throw (.exit ("cannot finalize: unknown fact id(s) in ".toList ++ p.name ++ ": ".toList ++
      joinWith ", ".toList unknown ++ " (a target must be a verified fact in the project's graph)".toList))
  let path ← (paperTargetPath paperId).mapError fun message => .exit ("cannot finalize: ".toList ++ message)
  let ids := factIds.foldl appendNew []
  return ({ p with files := Function.update p.files path (some (targetText ids)) }, .recorded path ids)

end Project

section Finalize
variable [Runtime] {p p' : Project} {factIds : List PyStr} {paperId : Option PyStr} {path ids : List PyStr}

/-- What `danus finalize` has checked and done where it records targets. -/
theorem doFinalize_recorded (h : doFinalize p factIds paperId = .ok (p', .recorded path ids)) :
    factIds ≠ [] ∧ (∀ id ∈ factIds, isSafeFactId id = true) ∧ paperTargetPath paperId = .ok path ∧
      ids = factIds.foldl appendNew [] ∧
      p' = { p with files := Function.update p.files path (some (targetText ids)) } := by
  rw [doFinalize] at h
  split_ifs at h with hnil
  · obtain ⟨suggested, -, h⟩ := Checks.bind_ok.mp h
    cases h
  obtain ⟨_, -, h⟩ := Checks.bind_ok.mp h
  dsimp only at h
  split_ifs at h with hunknown
  · obtain ⟨path', hpath, h⟩ := Checks.bind_ok.mp h
    cases h
    have hknown : ∀ id ∈ factIds, isSafeFactId id = true := by
      intro id hid
      have hhas := List.filter_eq_nil_iff.mp hunknown id hid
      rw [Bool.not_eq_true, Bool.not_eq_false', Project.has, Bool.and_eq_true] at hhas
      exact hhas.1
    refine ⟨hnil, hknown, ?_, rfl, rfl⟩
    cases hp : paperTargetPath paperId with
    | error message =>
      rw [hp] at hpath
      cases hpath
    | ok path'' =>
      rw [hp] at hpath
      cases hpath
      rfl
  · cases h

/-- The brief of the paper is another file than its `TARGET.md`. -/
theorem brief_ne_target {dir : List PyStr} (hd : paperWorkspace paperId = .ok dir)
    (ht : paperTargetPath paperId = .ok path) : dir ++ ["PROJECT_BRIEF.md".toList] ≠ path := by
  rw [paperTargetPath, hd] at ht
  split_ifs at ht
  · rw [← Except.ok.inj ht]
    intro he
    have hlast := congrArg List.getLast? he
    rw [List.getLast?_concat] at hlast
    revert hlast
    decide
  · rw [← Except.ok.inj ht]
    intro he
    exact absurd (List.cons.inj (List.append_cancel_left he)).1 (by decide)

/-- What the brief of a paper names is not changed. -/
theorem brief_unchanged (h : doFinalize p factIds paperId = .ok (p', .recorded path ids)) :
    briefHeadlineFactIds p' paperId = briefHeadlineFactIds p paperId := by
  obtain ⟨-, -, hpath, -, rfl⟩ := doFinalize_recorded h
  rw [briefHeadlineFactIds, briefHeadlineFactIds]
  cases hd : paperWorkspace paperId with
  | error message => rfl
  | ok dir =>
    simp only [Except.map]
    rw [Function.update_of_ne (brief_ne_target hd hpath)]

/-- The targets that `danus finalize` records of any paper of any project are read back, and the headline of the
paper is resolved to them, exactly if each of them is an id of one of the two shapes that the reader knows. -/
theorem finalized_targets_read_back (p p' : Project) (factIds : List PyStr) (paperId : Option PyStr)
    (path ids : List PyStr) (h : doFinalize p factIds paperId = .ok (p', .recorded path ids)) :
    (targetFactIds p' paperId = .ok ids ∧
      ∀ headline, headline.getD [] = [] → briefHeadlineFactIds p paperId = .ok [] →
        resolveHeadlineOf p' headline paperId = .ok (ids, .target)) ↔
    ∀ id ∈ factIds, isTargetId id = true := by
  have hbriefs := brief_unchanged h
  obtain ⟨hne, hsafe, hpath, hids, rfl⟩ := doFinalize_recorded h
  have hmem : ∀ id, id ∈ ids ↔ id ∈ factIds := by
    intro id
    rw [hids, mem_appendNew]
    exact or_iff_right List.not_mem_nil
  have hread : targetFactIds { p with files := Function.update p.files path (some (targetText ids)) } paperId =
      .ok (readTargets (targetText ids)) := by
    rw [targetFactIds, hpath]
    simp only [Except.map, Function.update_self, Option.map_some, Option.getD_some]
  have hexact : readTargets (targetText ids) = ids ↔ ∀ id ∈ factIds, isTargetId id = true := by
    have hn : ids.Nodup := hids ▸ nodup_appendNew List.nodup_nil
    rw [readTargets_iff (fun id hid => hsafe id ((hmem id).mp hid)) hn]
    exact forall_congr' fun id => by rw [hmem]
  rw [hread]
  constructor
  · rintro ⟨heq, -⟩
    exact hexact.mp (Except.ok.inj heq)
  · intro hshape
    have heq := hexact.mpr hshape
    refine ⟨congrArg Except.ok heq, fun headline hh hbrief => ?_⟩
    have hidsne : ids ≠ [] := by
      obtain ⟨id, hid⟩ := List.exists_mem_of_ne_nil _ hne
      exact List.ne_nil_of_mem ((hmem id).mpr hid)
    rw [resolveHeadlineOf, if_neg (not_not_intro hh), hbriefs, hbrief, hread, heq]
    simp only [bind, Except.bind, pure, Except.pure, resolveHeadline, hh, ne_eq, not_true_eq_false, if_false,
      hidsne, not_false_eq_true, if_true]

end Finalize

section Ids

/-- A project whose graph has two facts with readable ids. -/
def readableIds : Project where
  name := "p".toList
  facts := [("fact_a".toList, []), ("fact_a-b".toList, [])]
  pending := none
  files _ := none

/-- The target that is recorded is one of the facts, and the one that is read is the other. -/
theorem finalize_names_another_fact :
    let _ : Runtime := asciiRuntime
    ∃ p', doFinalize readableIds ["fact_a-b".toList] none =
        .ok (p', .recorded ["TARGET.md".toList] ["fact_a-b".toList]) ∧
      targetFactIds p' none = .ok ["fact_a".toList] ∧
      resolveHeadlineOf p' none none = .ok (["fact_a".toList], .target) := by
  intro _
  refine ⟨_, rfl, ?_, ?_⟩
  · exact Checks.ok_of_toOption (by decide +kernel)
  · exact Checks.ok_of_toOption (by decide +kernel)

theorem finalized_targets_read_back_slug :
    let _ : Runtime := asciiRuntime
    ∃ p', doFinalize readableIds ["fact_a".toList] none =
        .ok (p', .recorded ["TARGET.md".toList] ["fact_a".toList]) ∧
      targetFactIds p' none = .ok ["fact_a".toList] := by
  intro _
  refine ⟨_, rfl, ?_⟩
  exact ((finalized_targets_read_back readableIds _ ["fact_a".toList] none _ _ rfl).mpr (by decide)).1

end Ids
end Danus.WritePaper.FinalizedTargets
