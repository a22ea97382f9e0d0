import Danus.FactGraph.RoundTrip
import Danus.Lib.Checks
import Danus.Lib.JsonScan
import Danus.Lib.Numerals

/-! Scaffolding a project: the workers that a role specification names, their homes, and the role that each
loop reads back. The files are within the 1,000,000 bytes that the loop's reader takes. -/
namespace Danus.Execution.RoleSpecs
open Python FactGraph

/-- What the interpreter's character tables and `repr` say. -/
class Interpreter where
  /-- The digit that `\d` matches and `int` reads. -/
  digit : Char → Option Nat
  digit_ascii : ∀ c : Char, c.toNat < 0x80 →
    digit c = if 48 ≤ c.toNat ∧ c.toNat ≤ 57 then some (c.toNat - 48) else none
  reprText : PyStr → PyStr

/-- What `do_new` and the readers of a role raise. -/
inductive ScaffoldError where
  | exit (message : PyStr)
  | value (message : PyStr)
  | hotJoin (message : PyStr)
  deriving DecidableEq

def isLetterAscii (c : Char) : Bool := ('a' ≤ c && c ≤ 'z') || ('A' ≤ c && c ≤ 'Z')

/-- The base of `_ROLE_RE` and of `_ROLE_PART_RE`. -/
def isBase : PyStr → Bool
  | [] => false
  | c :: cs => isLetterAscii c && cs.all fun d => isAlnumAscii d || d == '_'

/-- The parts of a specification that are not blank. -/
def specParts (spec : PyStr) : List PyStr := ((spec.splitOn ',').map strip).filter (· ≠ [])

/-- The name of the `i`th worker of a base, counted from 1. -/
def workerName (base : PyStr) (i : Nat) : PyStr := if i = 1 then base else base ++ natText i

/-- The workers of one part, each with its base role. -/
def roleWorkers (part : PyStr × Nat) : List (PyStr × PyStr) :=
  (List.range' 1 part.2).map fun i => (workerName part.1 i, part.1)

section Parse
variable [Interpreter]

def intLimit : Nat := 4300

/-- `int(digits)` -/
def readInt (digits : PyStr) : Except ScaffoldError Nat :=
  if intLimit < digits.length then
    .error (.value ("Exceeds the limit (4300 digits) for integer string conversion: value has ".toList ++
      natText digits.length ++ " digits; use sys.set_int_max_str_digits() to increase the limit".toList))
  else .ok (digits.foldl (fun n c => n * 10 + (Interpreter.digit c).getD 0) 0)

/-- What `parse_roles` reads of one part: the base and the count. -/
def parsePart (part : PyStr) : Except ScaffoldError (PyStr × Nat) := do
  let base := part.takeWhile (· ≠ ':')
  let digits := (part.dropWhile (· ≠ ':')).drop 1
  unless isBase base ∧ digits ≠ [] ∧ digits.all fun c => (Interpreter.digit c).isSome do
    throw (.value ("bad role spec ".toList ++ Interpreter.reprText part ++ "; want e.g. high:3,xhigh:4".toList))
  let count ← readInt digits
  unless 1 ≤ count do
    throw (.value ("role count must be >= 1: ".toList ++ Interpreter.reprText part))
  return (base, count)

/-- The parts of a specification that `parse_roles` accepts. -/
def parseParts (spec : PyStr) : Except ScaffoldError (List (PyStr × Nat)) := (specParts spec).mapM parsePart

/-- `parse_roles` -/
def parseRoles (spec : PyStr) : Except ScaffoldError (List (PyStr × PyStr)) := do
  let parts ← parseParts spec
  let out := parts.flatMap roleWorkers
  if out = [] then throw (.value "empty role spec".toList)
  return out

/-- One part under the stricter `_ROLE_PART_RE`. -/
def policyPart (part : PyStr) : Except ScaffoldError (PyStr × Nat) := do
  let base := part.takeWhile (· ≠ ':')
  let digits := (part.dropWhile (· ≠ ':')).drop 1
  unless isBase base ∧ (digits.head?.any fun c => isDigit c && c != '0') ∧ digits.all isDigit do
    throw (.exit "project roles are malformed".toList)
  return (base, ← readInt digits)

/-- `_role_pairs` of the coordination policy. -/
def rolePairs (spec : PyStr) : Except ScaffoldError (List (PyStr × PyStr)) := do
  let parts ← (specParts spec).mapM policyPart
  let pairs := parts.flatMap roleWorkers
  if pairs = [] then throw (.exit "project roles are empty".toList)
  return pairs

/-- The checks of `select_lane_roster`, whose roster `do_new` drops. -/
def selectLaneRoster (workers : List PyStr) (roles : PyStr) (maxPaidWorkers : Nat) : Except ScaffoldError Unit := do
  unless workers ≠ [] ∧ (∀ w ∈ workers, w ≠ []) ∧ workers.Nodup do
    throw (.exit "project roster metadata is malformed".toList)
  let pairs ← rolePairs roles
  unless (∀ p ∈ pairs, p.1 ∈ workers) ∧ ∀ w ∈ workers, w ∈ pairs.map Prod.fst do
    throw (.exit "project roles and worker roster disagree".toList)
  if 2 < maxPaidWorkers ∧ workers.length < maxPaidWorkers then
    throw (.exit ("reasoning-first roster has fewer workers than its configured ".toList ++
      natText maxPaidWorkers ++ " protected paid lanes".toList))

end Parse

/-- The coordination of a project: the paid workers of the reasoning-first mode. -/
inductive Coordination where
  | legacy
  | reasoningFirst (maxPaidWorkers : Nat)
  deriving DecidableEq

/-- What a project is made from besides the arguments. -/
structure Host where
  agentsRoot : PyStr
  projects : List PyStr
  /-- `codex.model()` -/
  model : PyStr

/-- A scaffolded project: its metadata, and the homes under `workers/` with the text of their `.role`. -/
structure Scaffold where
  name : PyStr
  model : PyStr
  roles : PyStr
  workers : List PyStr
  coordination : Coordination
  homes : List (PyStr × PyStr)
  deriving DecidableEq

/-- The line `key=value` of a `.role` file. -/
def roleField (key value : PyStr) : PyStr := key ++ '=' :: value ++ ['\n']

/-- The text of a `.role` file. -/
def roleText (model base worker : PyStr) : PyStr :=
  roleField "MODEL".toList model ++ (roleField "REASONING_EFFORT".toList base ++
    (roleField "ROLE".toList base ++ roleField "DANUS_AUTHOR".toList worker))

section Scaffold
variable [Interpreter]

/-- `coordination_payload`; `coordination_config` reads each of its payloads back as it is. -/
def coordinationPayload (choice : Option PyStr) (activeExplorers : Int) : Except ScaffoldError Coordination :=
  if activeExplorers ≠ 0 ∧ activeExplorers ≠ 1 ∧ activeExplorers ≠ 2 then
    .error (.exit "active_explorers must be 0, 1, or 2".toList)
  else match choice with
  | none => .ok (.reasoningFirst (2 + activeExplorers.toNat))
  | some mode =>
    if mode = "reasoning-first".toList ∨ mode = "reasoning_first_v1".toList then
      .ok (.reasoningFirst (2 + activeExplorers.toNat))
    else if mode = "legacy".toList then
      if activeExplorers ≠ 0 then
        .error (.exit "legacy coordination does not support active explorers".toList)
      else .ok .legacy
    else .error (.exit ("unsupported coordination mode: ".toList ++ Interpreter.reprText mode))

/-- The roles of a project whose caller gives none. -/
def defaultRoles : Coordination → PyStr
  | .legacy => "high:3,xhigh:4".toList
  | .reasoningFirst _ => "max:2,high:5".toList

/-- The preflight check of the roster. -/
def checkRoster (workers : List PyStr) (roles : PyStr) : Coordination → Except ScaffoldError Unit
  | .legacy => .ok ()
  | .reasoningFirst maxPaidWorkers => selectLaneRoster workers roles maxPaidWorkers

/-- `do_new`, up to the storage of the coordination; a home that exists is kept and its files are replaced. -/
def doNew (host : Host) (project : PyStr) (roles model coordination : Option PyStr) (activeExplorers : Int) :
    Except ScaffoldError Scaffold := do
  unless isSafeFactId project do
    throw (.exit "invalid project name: project must match [A-Za-z0-9][A-Za-z0-9._-]*".toList)
  if project ∈ host.projects then
    throw (.exit ("project already exists: ".toList ++ host.agentsRoot ++ "/".toList ++ project ++
      " (pick another name or remove it)".toList))
  let payload ← coordinationPayload coordination activeExplorers
  let roles := roles.getD (defaultRoles payload)
  let pairs ← parseRoles roles
  let model := if model.getD [] = [] then host.model else model.getD []
  let workers := pairs.map Prod.fst
  checkRoster workers roles payload
  let homes := pairs.foldl (fun homes pair => setTerm homes (pair.1, roleText model pair.2 pair.1)) []
  return ⟨project, model, roles, workers, payload, homes⟩

/-- `project.json` -/
def Scaffold.metadata (s : Scaffold) : Json :=
  let coordination : Json := match s.coordination with
    | .legacy => .obj [("mode".toList, .str "legacy".toList)]
    | .reasoningFirst maxPaidWorkers => .obj [("mode".toList, .str "reasoning_first_v1".toList),
      ("max_paid_workers".toList, .int maxPaidWorkers), ("phase_timeout_seconds".toList, .int 2700)]
  .obj [("name".toList, .str s.name), ("model".toList, .str s.model), ("roles".toList, .str s.roles),
    ("workers".toList, .arr (s.workers.map .str)), ("coordination".toList, coordination)]

end Scaffold

/-- What a loop takes from its role. -/
structure Role where
  model : PyStr
  reasoningEffort : PyStr
  role : PyStr
  author : PyStr
  deriving DecidableEq

/-- One line of a role file. -/
def roleLine (out : List (PyStr × PyStr)) (line : PyStr) : List (PyStr × PyStr) :=
  let line := strip line
  if line ≠ [] ∧ line.head? ≠ some '#' ∧ '=' ∈ line then
    setTerm out (strip (line.takeWhile (· ≠ '=')), strip ((line.dropWhile (· ≠ '=')).drop 1))
  else out

/-- `_read_role` of the role file, with the model that the launcher defaults to. -/
def readRole (defaultModel name : PyStr) (file : Option PyStr) : Role :=
  let out := (splitlines (file.getD [])).foldl roleLine [("MODEL".toList, defaultModel),
    ("REASONING_EFFORT".toList, "high".toList), ("ROLE".toList, "high".toList), ("DANUS_AUTHOR".toList, name)]
  let get (key : PyStr) := (out.lookup key).getD []
  ⟨get "MODEL".toList, get "REASONING_EFFORT".toList, get "ROLE".toList, get "DANUS_AUTHOR".toList⟩

/-- Whether an entry of the roster is this name. -/
def isName (name : PyStr) : Json → Bool
  | .str s => s == name
  | _ => false

/-- `_read_role(wl, protected=True)` of a worker, over the value of `project.json`. -/
def readRoleProtected [Interpreter] (metadata : Json) (name : PyStr) : Except ScaffoldError Role := do
  match metadata with
  | .obj items =>
    match items.lookup "model".toList with
    | some (.str model) =>
      match items.lookup "roles".toList, items.lookup "workers".toList with
      | some (.str roles), some (.arr workers) =>
        let pairs ← parseRoles roles
        -- `dict(pairs)` keeps the last role of a name
        match pairs.reverse.lookup name with
        | some base =>
          if workers.any (isName name) then
            return ⟨model, base, base, name⟩
          else throw (.hotJoin "worker is absent from the protected project roster".toList)
        | none => throw (.hotJoin "worker is absent from the protected project roster".toList)
      | _, _ => throw (.hotJoin "protected project roster metadata is malformed".toList)
    | _ => throw (.hotJoin "protected project role metadata is malformed".toList)
  | _ => throw (.hotJoin "protected project role metadata is malformed".toList)

section Names
variable {b b' : PyStr} {i j n m : Nat} {p q : PyStr × Nat} {parts : List (PyStr × Nat)}

/-- A base that is another one with digits after it, such that the other one's numbers run into its names. -/
def RunsInto (p q : PyStr × Nat) : Prop :=
  ∃ d, d ≠ [] ∧ q.1 = p.1 ++ d ∧ ∃ i, 2 ≤ i ∧ i ≤ p.2 ∧
    (natText i = d ∨ ∃ j, 2 ≤ j ∧ j ≤ q.2 ∧ natText i = d ++ natText j)

/-- No base is given twice, and no base's numbers run into another one's names. -/
def Separate (parts : List (PyStr × Nat)) : Prop :=
  parts.Pairwise fun p q => p.1 ≠ q.1 ∧ ¬ RunsInto p q ∧ ¬ RunsInto q p

theorem workerName_one (b : PyStr) : workerName b 1 = b := if_pos rfl

theorem workerName_of_two_le (h : 2 ≤ i) : workerName b i = b ++ natText i := if_neg (by omega)

/-- The workers of one base have different names. -/
theorem workerName_inj (hi : 1 ≤ i) (hj : 1 ≤ j) (h : workerName b i = workerName b j) : i = j := by
  rcases Nat.eq_or_lt_of_le hi with rfl | hi <;> rcases Nat.eq_or_lt_of_le hj with rfl | hj
  · rfl
  · rw [workerName_one, workerName_of_two_le hj] at h
    exact absurd (List.append_right_eq_self.mp h.symm) (natText_ne_nil j)
  · rw [workerName_one, workerName_of_two_le hi] at h
    exact absurd (List.append_right_eq_self.mp h) (natText_ne_nil i)
  · rw [workerName_of_two_le hi, workerName_of_two_le hj] at h
    exact natText_inj (List.append_cancel_left h)

theorem mem_roleWorkers {name : PyStr} : name ∈ (roleWorkers p).map Prod.fst ↔
    ∃ i, 1 ≤ i ∧ i ≤ p.2 ∧ workerName p.1 i = name := by
  rw [roleWorkers, List.map_map, List.mem_map]
  refine exists_congr fun i => ?_
  rw [List.mem_range'_1, Function.comp_apply, and_assoc]
  refine and_congr_right fun _ => and_congr_left fun _ => ?_
  omega

theorem roleWorkers_nodup (p : PyStr × Nat) : ((roleWorkers p).map Prod.fst).Nodup := by
  rw [roleWorkers, List.map_map]
  refine List.Nodup.map_on ?_ List.nodup_range'
  intro i hi j hj h
  exact workerName_inj (List.mem_range'_1.mp hi).1 (List.mem_range'_1.mp hj).1 h

theorem roleWorkers_length (p : PyStr × Nat) : (roleWorkers p).length = p.2 := by
  rw [roleWorkers, List.length_map, List.length_range']

/-- Two parts give one name exactly where their bases are equal or one base's numbers run into the other's names. -/
theorem disjoint_roleWorkers (hp : 1 ≤ p.2) (hq : 1 ≤ q.2) :
    ((roleWorkers p).map Prod.fst).Disjoint ((roleWorkers q).map Prod.fst) ↔
      p.1 ≠ q.1 ∧ ¬ RunsInto p q ∧ ¬ RunsInto q p := by
  have hmeet : (∃ name, name ∈ (roleWorkers p).map Prod.fst ∧ name ∈ (roleWorkers q).map Prod.fst) ↔
      p.1 = q.1 ∨ RunsInto p q ∨ RunsInto q p := by
    simp only [mem_roleWorkers]
    constructor
    · rintro ⟨_, ⟨i, hi, hip, rfl⟩, j, hj, hjq, h⟩
      rcases Nat.eq_or_lt_of_le hi with rfl | hi <;> rcases Nat.eq_or_lt_of_le hj with rfl | hj
      · rw [workerName_one, workerName_one] at h
        exact .inl h.symm
      · rw [workerName_one, workerName_of_two_le hj] at h
        exact .inr (.inr ⟨_, natText_ne_nil j, h.symm, j, hj, hjq, .inl rfl⟩)
      · rw [workerName_one, workerName_of_two_le hi] at h
        exact .inr (.inl ⟨_, natText_ne_nil i, h, i, hi, hip, .inl rfl⟩)
      · rw [workerName_of_two_le hi, workerName_of_two_le hj] at h
        rcases List.append_eq_append_iff.mp h with ⟨d, hbase, hnum⟩ | ⟨d, hbase, hnum⟩
        · by_cases hd : d = []
          · rw [hd, List.append_nil] at hbase
            exact .inl hbase
          · exact .inr (.inr ⟨d, hd, hbase, j, hj, hjq, .inr ⟨i, hi, hip, hnum⟩⟩)
        · by_cases hd : d = []
          · rw [hd, List.append_nil] at hbase
            exact .inl hbase.symm
          · exact .inr (.inl ⟨d, hd, hbase, i, hi, hip, .inr ⟨j, hj, hjq, hnum⟩⟩)
    · rintro (h | ⟨d, hd, hbase, i, hi, hip, hnum⟩ | ⟨d, hd, hbase, j, hj, hjq, hnum⟩)
      · exact ⟨p.1, ⟨1, Nat.le_refl 1, hp, workerName_one _⟩, 1, Nat.le_refl 1, hq, by rw [workerName_one, h]⟩
      · refine ⟨p.1 ++ natText i, ⟨i, by omega, hip, workerName_of_two_le hi⟩, ?_⟩
        rcases hnum with hnum | ⟨j, hj, hjq, hnum⟩
        · exact ⟨1, Nat.le_refl 1, hq, by rw [workerName_one, hbase, hnum]⟩
        · exact ⟨j, by omega, hjq, by rw [workerName_of_two_le hj, hbase, hnum, List.append_assoc]⟩
      · refine ⟨q.1 ++ natText j, ?_, j, by omega, hjq, workerName_of_two_le hj⟩
        rcases hnum with hnum | ⟨i, hi, hip, hnum⟩
        · exact ⟨1, Nat.le_refl 1, hp, by rw [workerName_one, hbase, hnum]⟩
        · exact ⟨i, by omega, hip, by rw [workerName_of_two_le hi, hbase, hnum, List.append_assoc]⟩
  have hdisjoint : ((roleWorkers p).map Prod.fst).Disjoint ((roleWorkers q).map Prod.fst) ↔
      ¬ ∃ name, name ∈ (roleWorkers p).map Prod.fst ∧ name ∈ (roleWorkers q).map Prod.fst := by
    rw [not_exists]
    exact ⟨fun h name hn => h hn.1 hn.2, fun h name hp hq => h name ⟨hp, hq⟩⟩
  rw [hdisjoint, hmeet, not_or, not_or]

/-- The workers' names are distinct exactly where the specification is separate. -/
theorem names_nodup_iff (hcount : ∀ p ∈ parts, 1 ≤ p.2) :
    ((parts.flatMap roleWorkers).map Prod.fst).Nodup ↔ Separate parts := by
  rw [List.map_flatMap, List.nodup_flatMap, and_iff_right fun p _ => roleWorkers_nodup p, Separate]
  refine List.Pairwise.iff_of_mem fun {p q} hp hq => ?_
  exact disjoint_roleWorkers (hcount p hp) (hcount q hq)

theorem length_workers (parts : List (PyStr × Nat)) :
    (parts.flatMap roleWorkers).length = (parts.map Prod.snd).sum := by
  rw [List.length_flatMap]
  exact congrArg List.sum (List.map_congr_left fun p _ => roleWorkers_length p)

end Names

section RoleFile
variable {s t line base worker model name defaultModel : PyStr} {terms homes : List (PyStr × PyStr)}
  {pairs : List (PyStr × PyStr)}

/-- A text of letters, digits and underscores. -/
def IsWord (s : PyStr) : Prop := ∀ c ∈ s, (isAlnumAscii c || c == '_') = true

theorem IsWord.plain (h : IsWord s) {c : Char} (hc : c ∈ s) :
    isSpace c = false ∧ isLineBreak c = false ∧ c ≠ '=' := by
  have hword := h c hc
  rw [Bool.or_eq_true, beq_iff_eq] at hword
  rcases hword with hword | rfl
  · obtain ⟨hplain, hspace, -⟩ := isAlnumAscii_plain hword
    refine ⟨hspace, not_isLineBreak_of_isPlain hplain, ?_⟩
    rintro rfl
    revert hword
    decide
  · decide

theorem isWord_base (h : isBase base = true) : IsWord base := by
  cases base with
  | nil => cases h
  | cons c cs =>
    rw [isBase, Bool.and_eq_true, List.all_eq_true] at h
    refine List.forall_mem_cons.mpr ⟨?_, h.2⟩
    have hletter := h.1
    rw [isLetterAscii, Bool.or_eq_true] at hletter
    rw [isAlnumAscii]
    rcases hletter with hl | hl
    · rw [hl]
      simp
    · rw [hl]
      simp

theorem isWord_workerName (h : IsWord base) (i : Nat) : IsWord (workerName base i) := by
  rw [workerName]
  split
  · exact h
  · intro c hc
    rcases List.mem_append.mp hc with hc | hc
    · exact h c hc
    · have hdigit := Json.natText_digits i c hc
      rw [isDigit] at hdigit
      rw [isAlnumAscii, hdigit]
      rfl

/-- What stands after a line feed is read as lines of its own. -/
theorem splitlines_after (s t : PyStr) : ∃ before, splitlines (s ++ '\n' :: t) = before ++ splitlines t := by
  have hfrom : ∀ l, ∃ before, splitlinesFrom l (s ++ '\n' :: t) = before ++ splitlines t := by
    intro l
    induction l, s using splitlinesFrom.induct with
    | case1 l hl => exact ⟨[l.reverse], splitlinesFrom_feed⟩
    | case2 l hl => exact ⟨[l.reverse], splitlinesFrom_feed⟩
    | case3 l cs ih =>
      obtain ⟨before, hb⟩ := ih
      refine ⟨l.reverse :: before, ?_⟩
      rw [List.cons_append, List.cons_append, splitlinesFrom, hb, List.cons_append]
    | case4 l c cs hcrlf hc ih =>
      by_cases hlast : c = '\r' ∧ cs = []
      · obtain ⟨rfl, rfl⟩ := hlast
        exact ⟨[l.reverse], rfl⟩
      · obtain ⟨before, hb⟩ := ih
        have hnext : c = '\r' → (cs ++ '\n' :: t).head? ≠ some '\n' := by
          rintro rfl
          cases cs with
          | nil => exact absurd ⟨rfl, rfl⟩ hlast
          | cons d cs =>
            intro hd
            rw [List.cons_append, List.head?_cons, Option.some_inj] at hd
            exact hcrlf cs rfl (by rw [hd])
        refine ⟨l.reverse :: before, ?_⟩
        rw [List.cons_append, splitlinesFrom_break hc hnext, splitlines, hb, List.cons_append]
    | case5 l c cs hcrlf hc ih =>
      rw [Bool.not_eq_true] at hc
      obtain ⟨before, hb⟩ := ih
      exact ⟨before, by rw [List.cons_append, splitlinesFrom_plain hc, hb]⟩
  exact hfrom []

theorem splitlines_line (hs : ∀ c ∈ line, isLineBreak c = false) (hne : line ≠ []) :
    splitlines (line ++ '\n' :: t) = line :: splitlines t := by
  have hunbroken : Unbroken line := fun c hc => hs c (List.mem_of_getLast? hc)
  rw [splitlines_append hunbroken, linesOf, if_neg hne, splitlines, splitlinesFrom_line hs, if_neg (by simp [hne])]
  rfl

theorem lookup_append_new {item : PyStr × PyStr} (hnew : terms.any (·.1 == item.1) = false) (key : PyStr) :
    (terms ++ [item]).lookup key = if key = item.1 then some item.2 else terms.lookup key := by
  induction terms with
  | nil =>
    by_cases hk : key = item.1
    · rw [if_pos hk, hk]
      exact lookup_cons_self
    · rw [if_neg hk]
      exact lookup_cons_of_ne hk
  | cons kv terms ih =>
    obtain ⟨k, v⟩ := kv
    rw [List.any_cons, Bool.or_eq_false_iff, beq_eq_false_iff_ne] at hnew
    rw [List.cons_append]
    by_cases hk : key = k
    · subst hk
      rw [lookup_cons_self, lookup_cons_self, if_neg hnew.1]
    · rw [lookup_cons_of_ne hk, lookup_cons_of_ne hk, ih hnew.2]

theorem lookup_replaced {item : PyStr × PyStr} (hold : terms.any (·.1 == item.1) = true) (key : PyStr) :
    (terms.map fun kv => if kv.1 == item.1 then item else kv).lookup key =
      if key = item.1 then some item.2 else terms.lookup key := by
  induction terms with
  | nil => cases hold
  | cons kv terms ih =>
    obtain ⟨k, v⟩ := kv
    rw [List.map_cons]
    by_cases hkv : k = item.1
    · subst hkv
      rw [if_pos (beq_self_eq_true _)]
      by_cases hk : key = item.1
      · rw [if_pos hk, hk]
        exact lookup_cons_self
      · have hcons : (item :: terms.map fun kv => if kv.1 == item.1 then item else kv).lookup key =
            (terms.map fun kv => if kv.1 == item.1 then item else kv).lookup key := lookup_cons_of_ne hk
        rw [if_neg hk, hcons, lookup_cons_of_ne hk]
        cases hrest : terms.any (·.1 == item.1) with
        | true => rw [ih hrest, if_neg hk]
        | false =>
          rw [List.any_eq_false] at hrest
          have hsame : (terms.map fun kv => if kv.1 == item.1 then item else kv) = terms :=
            (List.map_congr_left fun kv hkv => if_neg (hrest kv hkv)).trans (List.map_id terms)
          rw [hsame]
    · rw [if_neg (by simpa using hkv)]
      rw [List.any_cons, beq_eq_false_iff_ne.mpr hkv, Bool.false_or] at hold
      by_cases hk : key = k
      · subst hk
        rw [lookup_cons_self, lookup_cons_self, if_neg hkv]
      · rw [lookup_cons_of_ne hk, lookup_cons_of_ne hk, ih hold]

theorem lookup_setTerm (terms : List (PyStr × PyStr)) (item : PyStr × PyStr) (key : PyStr) :
    (setTerm terms item).lookup key = if key = item.1 then some item.2 else terms.lookup key := by
  rw [setTerm]
  split
  · exact lookup_replaced ‹_› key
  · exact lookup_append_new (Bool.not_eq_true _ ▸ ‹¬ _›) key

/-- A line of a key and a word sets the key to it. -/
theorem roleLine_word {key value : PyStr} (hk : IsWord key) (hne : key ≠ []) (hv : IsWord value)
    (out : List (PyStr × PyStr)) :
    roleLine out (key ++ '=' :: value) = setTerm out (key, value) := by
  have hspaces : ∀ c ∈ key ++ '=' :: value, isSpace c = false := by
    intro c hc
    rcases List.mem_append.mp hc with hc | hc
    · exact (hk.plain hc).1
    · rcases List.mem_cons.mp hc with rfl | hc
      · rfl
      · exact (hv.plain hc).1
  have hstrip : strip (key ++ '=' :: value) = key ++ '=' :: value := strip_of_noSpace hspaces
  have htake : (key ++ '=' :: value).takeWhile (· ≠ '=') = key := by
    rw [List.takeWhile_append_of_pos fun c hc => by simpa using (hk.plain hc).2.2]
    simp
  have hdrop : (key ++ '=' :: value).dropWhile (· ≠ '=') = '=' :: value := by
    rw [List.dropWhile_append_of_pos fun c hc => by simpa using (hk.plain hc).2.2]
    simp
  have hhead : (key ++ '=' :: value).head? ≠ some '#' := by
    obtain ⟨c, cs, rfl⟩ := List.exists_cons_of_ne_nil hne
    intro he
    cases he
    have hmark := hk '#' List.mem_cons_self
    revert hmark
    decide
  rw [roleLine]
  simp only [hstrip, htake, hdrop]
  rw [if_pos ⟨by simp, hhead, by simp⟩]
  rw [strip_of_noSpace fun c hc => (hk.plain hc).1, List.drop_one, List.tail_cons,
    strip_of_noSpace fun c hc => (hv.plain hc).1]

/-- A field of a role file is a line of its own, and reading it sets the key. -/
theorem foldl_field {key value : PyStr} (hk : IsWord key) (hne : key ≠ []) (hv : IsWord value) (rest : PyStr)
    (out : List (PyStr × PyStr)) : (splitlines (roleField key value ++ rest)).foldl roleLine out =
      (splitlines rest).foldl roleLine (setTerm out (key, value)) := by
  have hline : ∀ c ∈ key ++ '=' :: value, isLineBreak c = false := by
    intro c hc
    rcases List.mem_append.mp hc with hc | hc
    · exact (hk.plain hc).2.1
    · rcases List.mem_cons.mp hc with rfl | hc
      · rfl
      · exact (hv.plain hc).2.1
  have hcut : roleField key value ++ rest = (key ++ '=' :: value) ++ '\n' :: rest := by
    rw [roleField, List.append_assoc, List.singleton_append]
  rw [hcut, splitlines_line hline (by simp), List.foldl_cons, roleLine_word hk hne hv]

/-- A role file gives the base and the name back, whatever the model's text is. -/
theorem readRole_roleText (hb : IsWord base) (hw : IsWord worker) :
    (readRole defaultModel name (some (roleText model base worker))).reasoningEffort = base ∧
    (readRole defaultModel name (some (roleText model base worker))).author = worker := by
  have hk1 : IsWord "REASONING_EFFORT".toList := by unfold IsWord; decide
  have hk2 : IsWord "ROLE".toList := by unfold IsWord; decide
  have hk3 : IsWord "DANUS_AUTHOR".toList := by unfold IsWord; decide
  have hne : "REASONING_EFFORT".toList ≠ [] ∧ "ROLE".toList ≠ [] ∧ "DANUS_AUTHOR".toList ≠ [] := by decide
  have hn1 : "REASONING_EFFORT".toList ≠ "DANUS_AUTHOR".toList := by decide
  have hn2 : "REASONING_EFFORT".toList ≠ "ROLE".toList := by decide
  rw [readRole, roleText]
  -- the keys stand for themselves from here on
  generalize "MODEL".toList = m at *
  generalize "REASONING_EFFORT".toList = k1 at *
  generalize "ROLE".toList = k2 at *
  generalize "DANUS_AUTHOR".toList = k3 at *
  have hmodel : roleField m model = (m ++ '=' :: model) ++ ['\n'] := rfl
  obtain ⟨before, hbefore⟩ := splitlines_after (m ++ '=' :: model)
    (roleField k1 base ++ (roleField k2 base ++ roleField k3 worker))
  have hlast := foldl_field hk3 hne.2.2 hw []
  have hnil : splitlines [] = [] := rfl
  rw [List.append_nil, hnil] at hlast
  rw [Option.getD_some, hmodel, List.append_assoc, List.singleton_append, hbefore]
  simp only [List.foldl_append, foldl_field hk1 hne.1 hb, foldl_field hk2 hne.2.1 hb, hlast, List.foldl_nil,
    lookup_setTerm, hn1, hn2, if_true, if_false]
  exact ⟨rfl, rfl⟩

/-- Homes made one after another under distinct names. -/
theorem foldl_homes (homes pairs : List (PyStr × PyStr)) (text : PyStr × PyStr → PyStr)
    (hn : (homes.map Prod.fst ++ pairs.map Prod.fst).Nodup) :
    pairs.foldl (fun homes pair => setTerm homes (pair.1, text pair)) homes =
      homes ++ pairs.map fun pair => (pair.1, text pair) := by
  induction pairs generalizing homes with
  | nil => simp
  | cons pair pairs ih =>
    have hnew : homes.any (·.1 == pair.1) = false := by
      rw [List.any_eq_false]
      intro kv hkv he
      rw [List.map_cons] at hn
      exact (List.nodup_append.mp hn).2.2 kv.1 (List.mem_map_of_mem hkv) pair.1 List.mem_cons_self (beq_iff_eq.mp he)
    have hstep : setTerm homes (pair.1, text pair) = homes ++ [(pair.1, text pair)] := by
      rw [setTerm, if_neg (by simp [hnew])]
    rw [List.foldl_cons, hstep, ih, List.map_cons, List.append_assoc, List.singleton_append]
    rw [List.map_append, List.append_assoc]
    exact hn

end RoleFile

section Main
variable [Interpreter] {host : Host} {project : PyStr} {roles model coordination : Option PyStr}
  {activeExplorers : Int} {s : Scaffold} {spec : PyStr} {parts : List (PyStr × Nat)}

theorem parsePart_ok {text : PyStr} {part : PyStr × Nat} (h : parsePart text = .ok part) :
    isBase part.1 = true ∧ 1 ≤ part.2 := by
  unfold parsePart at h
  simp only at h
  split at h
  · rename_i hpart
    obtain ⟨count, -, h⟩ := Checks.bind_ok.mp h
    split at h
    · rename_i hcount
      cases Checks.pure_ok.mp h
      exact ⟨hpart.1, hcount⟩
    · exact (Checks.bind_throw_ok.mp h).elim
  · exact (Checks.bind_throw_ok.mp h).elim

theorem mem_parseParts {texts : List PyStr} (h : texts.mapM parsePart = .ok parts) :
    ∀ p ∈ parts, isBase p.1 = true ∧ 1 ≤ p.2 := by
  induction texts generalizing parts with
  | nil =>
    rw [List.mapM_nil, Checks.pure_ok] at h
    subst h
    exact fun p hp => absurd hp List.not_mem_nil
  | cons text texts ih =>
    simp only [List.mapM_cons, Checks.bind_ok, Checks.pure_ok] at h
    obtain ⟨part, hpart, rest, hrest, rfl⟩ := h
    exact List.forall_mem_cons.mpr ⟨parsePart_ok hpart, ih hrest⟩

theorem parseRoles_ok {pairs : List (PyStr × PyStr)} (h : parseRoles spec = .ok pairs) :
    ∃ parts, parseParts spec = .ok parts ∧ pairs = parts.flatMap roleWorkers := by
  simp only [parseRoles, Checks.bind_ok] at h
  obtain ⟨parts, hparts, h⟩ := h
  split at h
  · simp only [Checks.bind_throw_ok] at h
  · exact ⟨parts, hparts, ((Checks.pure_ok.mp h)).symm⟩

/-- What a project that `do_new` scaffolds is made of. -/
theorem doNew_ok (h : doNew host project roles model coordination activeExplorers = .ok s) :
    ∃ parts, parseParts s.roles = .ok parts ∧ s.workers = (parts.flatMap roleWorkers).map Prod.fst ∧
      checkRoster s.workers s.roles s.coordination = .ok () ∧
      s.homes = (parts.flatMap roleWorkers).foldl
        (fun homes pair => setTerm homes (pair.1, roleText s.model pair.2 pair.1)) [] := by
  unfold doNew at h
  simp only at h
  split at h
  · split at h
    · exact (Checks.bind_throw_ok.mp h).elim
    · obtain ⟨payload, -, h⟩ := Checks.bind_ok.mp h
      obtain ⟨pairs, hpairs, h⟩ := Checks.bind_ok.mp h
      obtain ⟨parts, hparts, rfl⟩ := parseRoles_ok hpairs
      obtain ⟨u, hroster, h⟩ := Checks.bind_ok.mp h
      cases Checks.pure_ok.mp h
      exact ⟨parts, hparts, rfl, hroster, rfl⟩
  · exact (Checks.bind_throw_ok.mp h).elim

/-- The workers of a scaffolded project have names and homes of their own, there are as many as the specification
counts, and each one's loop reads the base role and the name that the specification gave it, from the role file and
from the protected metadata. -/
structure WorkersDistinct (parts : List (PyStr × Nat)) (s : Scaffold) : Prop where
  names : s.workers.Nodup
  homes : s.homes.map Prod.fst = s.workers
  count : s.workers.length = (parts.map Prod.snd).sum
  roles : ∀ pair ∈ parts.flatMap roleWorkers, ∀ launcherModel,
    (readRole launcherModel pair.1 (s.homes.lookup pair.1)).reasoningEffort = pair.2 ∧
    (readRole launcherModel pair.1 (s.homes.lookup pair.1)).author = pair.1
  protectedRoles : ∀ pair ∈ parts.flatMap roleWorkers, ∃ role, readRoleProtected s.metadata pair.1 = .ok role ∧
    role.reasoningEffort = pair.2 ∧ role.author = pair.1

/-- The protected metadata has a role for every worker of a separate specification. -/
theorem readRoleProtected_ok (hparts : parseParts s.roles = .ok parts)
    (hworkers : s.workers = (parts.flatMap roleWorkers).map Prod.fst) (hn : s.workers.Nodup)
    {pair : PyStr × PyStr} (hpair : pair ∈ parts.flatMap roleWorkers) :
    readRoleProtected s.metadata pair.1 = .ok ⟨s.model, pair.2, pair.2, pair.1⟩ := by
  have hread : parseRoles s.roles = .ok (parts.flatMap roleWorkers) := by
    rw [parseRoles, hparts]
    exact if_neg (List.ne_nil_of_mem hpair)
  have hlast : (parts.flatMap roleWorkers).reverse.lookup pair.1 = some pair.2 := by
    refine lookup_eq_some_of_nodup ?_ (List.mem_reverse.mpr hpair)
    rw [List.map_reverse, List.nodup_reverse, ← hworkers]
    exact hn
  have hmember : (s.workers.map Json.str).any (isName pair.1) = true := by
    rw [List.any_map, List.any_eq_true]
    refine ⟨pair.1, ?_, beq_self_eq_true pair.1⟩
    rw [hworkers]
    exact List.mem_map_of_mem hpair
  have hmodel : ∀ c : Json, [("name".toList, Json.str s.name), ("model".toList, .str s.model),
      ("roles".toList, .str s.roles), ("workers".toList, .arr (s.workers.map .str)),
      ("coordination".toList, c)].lookup "model".toList = some (.str s.model) := fun c => rfl
  have hroles : ∀ c : Json, [("name".toList, Json.str s.name), ("model".toList, .str s.model),
      ("roles".toList, .str s.roles), ("workers".toList, .arr (s.workers.map .str)),
      ("coordination".toList, c)].lookup "roles".toList = some (.str s.roles) := fun c => rfl
  have hlist : ∀ c : Json, [("name".toList, Json.str s.name), ("model".toList, .str s.model),
      ("roles".toList, .str s.roles), ("workers".toList, .arr (s.workers.map .str)),
      ("coordination".toList, c)].lookup "workers".toList = some (.arr (s.workers.map .str)) := fun c => rfl
  simp only [readRoleProtected, Scaffold.metadata, hmodel, hroles, hlist, hread]
  refine Checks.bind_ok.mpr ⟨_, rfl, ?_⟩
  simp only [hlast, hmember, if_true]
  rfl

/-- For every specification that `do_new` accepts, in either mode: its workers are distinct as promised if and only if
no base is given twice and no base's numbers run into another one's names. -/
theorem role_specs_distinct (host : Host) (project : PyStr) (roles model coordination : Option PyStr)
    (activeExplorers : Int) (s : Scaffold)
    (h : doNew host project roles model coordination activeExplorers = .ok s) :
    ∃ parts, parseParts s.roles = .ok parts ∧ (WorkersDistinct parts s ↔ Separate parts) := by
  obtain ⟨parts, hparts, hworkers, -, hhomes⟩ := doNew_ok h
  have hshape := mem_parseParts hparts
  have hnames := names_nodup_iff fun p hp => (hshape p hp).2
  rw [← hworkers] at hnames
  refine ⟨parts, hparts, fun hd => hnames.mp hd.names, fun hsep => ?_⟩
  have hn := hnames.mpr hsep
  have hfold := foldl_homes [] (parts.flatMap roleWorkers) (fun pair => roleText s.model pair.2 pair.1)
    (by rwa [List.map_nil, List.nil_append, ← hworkers])
  rw [← hhomes, List.nil_append] at hfold
  have hkeys : s.homes.map Prod.fst = s.workers := by
    rw [hfold, hworkers, List.map_map]
    rfl
  refine ⟨hn, hkeys, ?_, fun pair hpair launcherModel => ?_, fun pair hpair =>
    ⟨_, readRoleProtected_ok hparts hworkers hn hpair, rfl, rfl⟩⟩
  · rw [hworkers, List.length_map, length_workers]
  · have hhome : s.homes.lookup pair.1 = some (roleText s.model pair.2 pair.1) := by
      refine lookup_eq_some_of_nodup (by rw [hkeys]; exact hn) ?_
      rw [hfold]
      exact List.mem_map_of_mem hpair
    obtain ⟨part, hpart, hmem⟩ := List.mem_flatMap.mp hpair
    obtain ⟨i, -, rfl⟩ := List.mem_map.mp hmem
    have hword := isWord_base (hshape part hpart).1
    rw [hhome]
    exact readRole_roleText hword (isWord_workerName hword i)

/-- The reasoning-first mode refuses a specification that is not separate. -/
theorem reasoningFirst_separate (h : doNew host project roles model coordination activeExplorers = .ok s)
    (hmode : s.coordination ≠ .legacy) : ∃ parts, parseParts s.roles = .ok parts ∧ Separate parts := by
  obtain ⟨parts, hparts, hworkers, hroster, -⟩ := doNew_ok h
  refine ⟨parts, hparts, (names_nodup_iff fun p hp => (mem_parseParts hparts p hp).2).mp ?_⟩
  rw [← hworkers]
  cases hc : s.coordination with
  | legacy => exact absurd hc hmode
  | reasoningFirst maxPaidWorkers =>
    rw [hc, checkRoster, selectLaneRoster] at hroster
    split at hroster
    · rename_i hwell
      exact hwell.2.2
    · exact (Checks.bind_throw_ok.mp hroster).elim

end Main

def asciiDigit (c : Char) : Option Nat :=
  if 48 ≤ c.toNat ∧ c.toNat ≤ 57 then some (c.toNat - 48) else none

theorem asciiDigit_eq (c : Char) (_ : c.toNat < 0x80) :
    asciiDigit c = if 48 ≤ c.toNat ∧ c.toNat ≤ 57 then some (c.toNat - 48) else none := rfl

/-- ASCII digits alone. -/
@[reducible] def asciiInterpreter : Interpreter where
  digit := asciiDigit
  digit_ascii := asciiDigit_eq
  reprText s := '\'' :: s ++ ['\'']

def emptyHost : Host := ⟨"/projects".toList, [], "m".toList⟩

/-- What `high:2,high2:1` gives in the legacy mode. -/
def sharedScaffold : Scaffold where
  name := "p".toList
  model := "m".toList
  roles := "high:2,high2:1".toList
  workers := ["high".toList, "high2".toList, "high2".toList]
  coordination := .legacy
  homes := [("high".toList, roleText "m".toList "high".toList "high".toList),
    ("high2".toList, roleText "m".toList "high2".toList "high2".toList)]

/-- Three workers in two homes; the second one, given the role `high`, would run as `high2`. -/
theorem legacy_workers_share_home :
    let _ : Interpreter := asciiInterpreter
    doNew emptyHost "p".toList (some "high:2,high2:1".toList) none (some "legacy".toList) 0 = .ok sharedScaffold ∧
    parseParts sharedScaffold.roles = .ok [("high".toList, 2), ("high2".toList, 1)] ∧
    (readRole "m".toList "high2".toList (sharedScaffold.homes.lookup "high2".toList)).reasoningEffort =
      "high2".toList ∧
    ¬ WorkersDistinct [("high".toList, 2), ("high2".toList, 1)] sharedScaffold := by
  let _ : Interpreter := asciiInterpreter
  refine ⟨Checks.ok_of_toOption (by decide +kernel), Checks.ok_of_toOption (by decide +kernel), by decide +kernel,
    fun hd => ?_⟩
  have hshared : ¬ sharedScaffold.workers.Nodup := by decide
  exact hshared hd.names

theorem role_specs_distinct_default :
    let _ : Interpreter := asciiInterpreter
    ∃ s, doNew emptyHost "p".toList none none none 0 = .ok s ∧
      ∃ parts, parseParts s.roles = .ok parts ∧ (WorkersDistinct parts s ↔ Separate parts) := by
  let _ : Interpreter := asciiInterpreter
  have hsome : (doNew emptyHost "p".toList none none none 0).toOption.isSome = true := by decide +kernel
  cases hnew : doNew emptyHost "p".toList none none none 0 with
  | error e =>
    rw [hnew] at hsome
    cases hsome
  | ok s => exact ⟨s, hnew, role_specs_distinct _ _ _ _ _ _ s hnew⟩

end Danus.Execution.RoleSpecs
