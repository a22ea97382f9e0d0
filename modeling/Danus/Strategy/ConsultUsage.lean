import Danus.Lib.Json
import Mathlib.Algebra.Group.Prod
import Mathlib.Data.List.DropRight

/-! One consult through the Anthropic API: the step-down of its parameters, the continuations of a
paused reply, and the tokens that its envelope reports. -/
namespace Danus.Strategy.ClaudeApi
open Python

def claudeApiMaxContinuations : Nat := 4

def advisorSystem : PyStr :=
  ("You are a senior research-mathematics strategy advisor, consulted by an " ++
   "automated proof-search orchestrator. You will receive the current distilled " ++
   "state (an 'elaboration') of a mathematics project whose worker swarm proves " ++
   "results. Respond with concrete strategy: the most promising decomposition(s) " ++
   "of the problem and the single most actionable next lemma/step for the workers. " ++
   "Be rigorous and specific — name precise techniques, lemmas, references. Do NOT " ++
   "ask questions (this is non-interactive; resolve ambiguity yourself). Output " ++
   "only the strategic guidance, with no preamble or meta-commentary; this text is " ++
   "recorded verbatim as the swarm's master_guidance.").toList

/-- The token counts of a message; a count that is absent is read as zero. -/
structure Usage where
  inputTokens : Option Int
  cacheCreationInputTokens : Option Int
  cacheReadInputTokens : Option Int
  outputTokens : Option Int

inductive Block where
  | text (text : PyStr)
  | thinking (thinking : PyStr)
  | serverToolUse (name : PyStr)
  | other
deriving DecidableEq

structure FinalMessage where
  content : List Block
  usage : Option Usage
  stopReason : Option PyStr
  model : Option PyStr

/-- How the API ends one request: a stream that completes, a 400, or anything else that raises. -/
inductive Outcome where
  | completed (final : FinalMessage)
  | rejected (reason : PyStr)
  | failed (reason : PyStr)

def Outcome.isRejected : Outcome → Bool
  | .rejected _ => true
  | _ => false

def Outcome.isCompleted : Outcome → Bool
  | .completed _ => true
  | _ => false

inductive Turn where
  | user (content : PyStr)
  | assistant (content : List Block)

/-- The parameters that the attempts differ in. -/
structure Extra where
  thinking : Option Json := none
  outputConfig : Option Json := none
  tools : List Json := []

structure Request where
  model : PyStr
  maxTokens : Int
  system : PyStr
  thinking : Option Json
  outputConfig : Option Json
  tools : Option (List Json)
  fallbacks : Option PyStr
  messages : List Turn

/-- `cost` is `round(in / 1e6 * price_in + out / 1e6 * price_out, 4)`, in floating point. -/
structure Config where
  model : PyStr
  fallbackModel : Option PyStr
  typedFallbacks : Bool
  cost : Int → Int → PyStr

inductive ConsultError where
  | unsupportedEffort (effort : PyStr)
  | badRequest (reason : PyStr)
  | failed (reason : PyStr)
  | noAttempt

structure Envelope where
  transport : PyStr
  model : PyStr
  effort : PyStr
  attempt : PyStr
  status : PyStr
  input : Int
  output : Int
  costUsd : PyStr
  billingBasis : PyStr
  toolCalls : List PyStr
  reasoningSummary : PyStr
  reply : PyStr

/-- The requests of one call, in order, and what it returns or raises. -/
structure Call where
  requests : List Request
  result : Except ConsultError Envelope

def normalizeClaudeEffort (effort : PyStr) : Except ConsultError PyStr :=
  if effort = "minimal".toList then .ok "low".toList
  else if effort ∈ ["low".toList, "medium".toList, "high".toList, "xhigh".toList, "max".toList] then
    .ok effort
  else .error (.unsupportedEffort effort)

def claudeApiToolsFor (mode : PyStr) : List Json :=
  if mode = "none".toList then []
  else [.obj [("type".toList, .str "web_search_20260209".toList), ("name".toList, .str "web_search".toList)]]

/-- Input tokens, cache reads and writes included, and output tokens of one message. -/
def usageTokens (final : FinalMessage) : Int × Int :=
  match final.usage with
  | none => (0, 0)
  | some u =>
    (u.inputTokens.getD 0 + u.cacheCreationInputTokens.getD 0 + u.cacheReadInputTokens.getD 0,
      u.outputTokens.getD 0)

/-- What one attempt has gathered from its rounds. -/
structure Tally where
  texts : List PyStr := []
  thinks : List PyStr := []
  calls : List PyStr := []
  tokens : Int × Int := (0, 0)

def collectText : Block → List PyStr
  | .text t => [t]
  | _ => []

def collectThinking : Block → List PyStr
  | .thinking t => if strip t = [] then [] else [t]
  | _ => []

def collectCall : Block → List PyStr
  | .serverToolUse name => [name]
  | _ => []

def Tally.collect (tally : Tally) (final : FinalMessage) : Tally where
  texts := tally.texts ++ final.content.flatMap collectText
  thinks := tally.thinks ++ final.content.flatMap collectThinking
  calls := tally.calls ++ final.content.flatMap collectCall
  tokens := tally.tokens + usageTokens final

/-- How one attempt ends. -/
inductive Ending where
  | done (final : Option FinalMessage) (tally : Tally)
  | rejected (reason : PyStr)
  | failed (reason : PyStr)

structure Attempted where
  requests : List Request
  ending : Ending

def pauseTurn : PyStr := "pause_turn".toList

/-- The rounds of one attempt from the API's outcome number `k` on, at most `n` of them. -/
def rounds (outcomes : Nat → Outcome) (base : List Turn → Request) :
    Nat → Nat → Option FinalMessage → Tally → List Turn → Attempted
  | 0, _, final, tally, _ => ⟨[], .done final tally⟩
  | n + 1, k, _, tally, messages =>
    match outcomes k with
    | .rejected reason => ⟨[base messages], .rejected reason⟩
    | .failed reason => ⟨[base messages], .failed reason⟩
    | .completed final =>
      if final.stopReason = some pauseTurn then
        let next := rounds outcomes base n (k + 1) (some final) (tally.collect final)
          (messages ++ [.assistant final.content])
        ⟨base messages :: next.requests, next.ending⟩
      else ⟨[base messages], .done (some final) (tally.collect final)⟩

/-- The attempts, richest first. -/
def attempts (effort : PyStr) (tools : List Json) : List (PyStr × Extra) :=
  let thinking := Json.obj [("type".toList, .str "adaptive".toList), ("display".toList, .str "summarized".toList)]
  let outputConfig := Json.obj [("effort".toList, .str effort)]
  [("full".toList, ⟨some thinking, some outputConfig, tools⟩),
    ("no-tools".toList, ⟨some thinking, some outputConfig, []⟩),
    ("no-thinking".toList, ⟨none, some outputConfig, tools⟩),
    ("bare".toList, {})]

/-- One request of an attempt; an empty tool list is left out, and a configured fallback model that is
not the requested one is named where the client library knows the parameter. -/
def Config.request (config : Config) (maxTokens : Int) (extra : Extra) (messages : List Turn) : Request where
  model := config.model
  maxTokens := maxTokens
  system := advisorSystem
  thinking := extra.thinking
  outputConfig := extra.outputConfig
  tools := if extra.tools.isEmpty then none else some extra.tools
  fallbacks := config.fallbackModel.filter fun fb =>
    !fb.isEmpty && fb != config.model && config.typedFallbacks
  messages := messages

def statusOf (stop : Option PyStr) : PyStr :=
  match stop with
  | none => "completed".toList
  | some s =>
    if s = "end_turn".toList then "completed".toList
    else if s = "refusal".toList then "refusal".toList
    else if s = "max_tokens".toList ∨ s = pauseTurn then "incomplete".toList
    else if s.isEmpty then "completed".toList
    else s

/-- The model that answered, with a note where it is not the requested one or a snapshot of it. -/
def modelText (requested : PyStr) (reported : Option PyStr) : PyStr :=
  let used := (reported.filter fun m => !m.isEmpty).getD requested
  if used = requested ∨ requested.isPrefixOf used then used
  else used ++ " (fell back from ".toList ++ requested ++ ")".toList

def Config.envelope (config : Config) (effort name : PyStr) (final : Option FinalMessage) (tally : Tally) :
    Envelope where
  transport := "claude_api".toList
  model := modelText config.model (final.bind FinalMessage.model)
  effort := effort
  attempt := name
  status := statusOf (final.bind FinalMessage.stopReason)
  input := tally.tokens.1
  output := tally.tokens.2
  costUsd := config.cost tally.tokens.1 tally.tokens.2
  billingBasis := "metered_api".toList
  toolCalls := tally.calls
  reasoningSummary := joinWith "\n\n---\n\n".toList tally.thinks
  reply := strip tally.texts.flatten

/-- The step-down: the next attempt only after a rejection, with its counters at zero. -/
def stepDown (config : Config) (outcomes : Nat → Outcome) (prompt effort : PyStr) (maxTokens : Int) :
    List (PyStr × Extra) → Nat → Option PyStr → Call
  | [], _, last => ⟨[], .error (last.elim .noAttempt .badRequest)⟩
  | (name, extra) :: rest, k, _ =>
    let attempted := rounds outcomes (config.request maxTokens extra) (1 + claudeApiMaxContinuations) k none {}
      [.user prompt]
    match attempted.ending with
    | .done final tally => ⟨attempted.requests, .ok (config.envelope effort name final tally)⟩
    | .failed reason => ⟨attempted.requests, .error (.failed reason)⟩
    | .rejected reason =>
      let call := stepDown config outcomes prompt effort maxTokens rest (k + attempted.requests.length)
        (some reason)
      ⟨attempted.requests ++ call.requests, call.result⟩

def clampTokens (maxOutputTokens : Int) : Int :=
  let mo := if maxOutputTokens = 0 then 128000 else maxOutputTokens
  max 1 (min mo 128000)

/-- `consult`, where `outcomes k` is what the API answers to the request number `k` of the call. -/
def consult (config : Config) (outcomes : Nat → Outcome) (prompt effort tools : PyStr)
    (maxOutputTokens : Int) : Call :=
  match normalizeClaudeEffort effort with
  | .error e => ⟨[], .error e⟩
  | .ok eff =>
    stepDown config outcomes prompt eff (clampTokens maxOutputTokens) (attempts eff (claudeApiToolsFor tools)) 0 none

section Usage

variable {outcomes : Nat → Outcome} {base : List Turn → Request} {tally tally' : Tally} {messages : List Turn}
  {final final' : Option FinalMessage} {os pre post : List Outcome} {n k : Nat} {reason : PyStr}

/-- The tokens that an outcome was paid for: those of its message, where the stream completed. -/
def Outcome.tokens : Outcome → Int × Int
  | .completed final => usageTokens final
  | _ => 0

def paid (os : List Outcome) : Int × Int := (os.map Outcome.tokens).sum

/-- What the API answers to `n` requests from the request number `k` on. -/
def window (outcomes : Nat → Outcome) (k n : Nat) : List Outcome := (List.range' k n).map outcomes

/-- The outcomes up to the last rejection among them: those of the abandoned attempts. -/
def abandoned (os : List Outcome) : List Outcome := os.rdropWhile fun o => !o.isRejected

theorem paid_append : paid (pre ++ post) = paid pre + paid post := by
  rw [paid, List.map_append, List.sum_append, paid, paid]

theorem window_succ : window outcomes k (n + 1) = outcomes k :: window outcomes (k + 1) n := by
  simp [window, List.range'_succ]

theorem window_append (m : Nat) :
    window outcomes k (n + m) = window outcomes k n ++ window outcomes (k + n) m := by
  rw [window, ← List.range'_append_1, List.map_append, window, window]

/-- The outcomes of the attempts before the one that returns: none, or they end with a rejection. -/
def Abandoned (os : List Outcome) : Prop := os = [] ∨ ∃ front reason, os = front ++ [.rejected reason]

theorem abandoned_append (hpre : Abandoned pre) (hpost : ∀ o ∈ post, o.isCompleted = true) :
    abandoned (pre ++ post) = pre := by
  have hkeep : ∀ o ∈ post.reverse, (!o.isRejected) = true := by
    intro o ho
    have h := hpost o (List.mem_reverse.mp ho)
    cases o <;> simp_all [Outcome.isRejected, Outcome.isCompleted]
  have hlast : pre.reverse.dropWhile (fun o => !o.isRejected) = pre.reverse := by
    rcases hpre with rfl | ⟨front, reason, rfl⟩
    · rfl
    · simp [Outcome.isRejected]
  rw [abandoned, List.rdropWhile, List.reverse_append, List.dropWhile_append_of_pos hkeep, hlast,
    List.reverse_reverse]

/-- What one attempt makes of the outcomes that it reads: it sums up completed streams, or it stops at
the first rejection. -/
theorem rounds_spec (outcomes : Nat → Outcome) (base : List Turn → Request) :
    ∀ (n k : Nat) (final : Option FinalMessage) (tally : Tally) (messages : List Turn),
      let attempted := rounds outcomes base n k final tally messages
      let read := window outcomes k attempted.requests.length
      attempted.requests.length ≤ n ∧
        (∀ final' tally', attempted.ending = .done final' tally' →
          (∀ o ∈ read, o.isCompleted = true) ∧ tally'.tokens = tally.tokens + paid read) ∧
        (∀ reason, attempted.ending = .rejected reason → ∃ front, read = front ++ [.rejected reason]) := by
  intro n
  induction n with
  | zero =>
    intro k final tally messages
    refine ⟨Nat.le_refl _, ?_, ?_⟩
    · intro final' tally' h
      cases h
      simp [rounds, window, paid]
    · intro reason h
      cases h
  | succ n ih =>
    intro k final tally messages
    cases ho : outcomes k with
    | rejected reason =>
      simp only [rounds, ho]
      refine ⟨by simp, by simp, ?_⟩
      intro reason' h
      cases h
      exact ⟨[], by simp [window, ho]⟩
    | failed reason => simp [rounds, ho]
    | completed message =>
      by_cases hstop : message.stopReason = some pauseTurn
      · obtain ⟨hlen, hdone, hrejected⟩ := ih (k + 1) (some message) (tally.collect message)
          (messages ++ [.assistant message.content])
        simp only [rounds, ho, if_pos hstop, List.length_cons, window_succ]
        refine ⟨by omega, ?_, ?_⟩
        · intro final' tally' h
          obtain ⟨hall, htokens⟩ := hdone final' tally' h
          refine ⟨?_, ?_⟩
          · simpa [Outcome.isCompleted] using hall
          · rw [htokens]
            simp [Tally.collect, paid, Outcome.tokens, add_assoc]
        · intro reason h
          obtain ⟨front, hfront⟩ := hrejected reason h
          exact ⟨.completed message :: front, by rw [hfront, List.cons_append]⟩
      · simp only [rounds, ho, if_neg hstop]
        refine ⟨by simp, ?_, by simp⟩
        intro final' tally' h
        cases h
        simp [window, ho, Outcome.isCompleted, Tally.collect, paid, Outcome.tokens]

/-- What the step-down makes of them: its envelope has the tokens of the attempt that returns. -/
theorem stepDown_spec (config : Config) (outcomes : Nat → Outcome) (prompt effort : PyStr) (maxTokens : Int) :
    ∀ (left : List (PyStr × Extra)) (k : Nat) (last : Option PyStr),
      let call := stepDown config outcomes prompt effort maxTokens left k last
      call.requests.length ≤ left.length * (1 + claudeApiMaxContinuations) ∧
        ∀ envelope, call.result = .ok envelope →
          ∃ pre post, window outcomes k call.requests.length = pre ++ post ∧ Abandoned pre ∧
            (∀ o ∈ post, o.isCompleted = true) ∧ (envelope.input, envelope.output) = paid post := by
  intro left
  induction left with
  | nil =>
    intro k last
    refine ⟨Nat.zero_le _, ?_⟩
    intro envelope h
    cases h
  | cons attempt rest ih =>
    obtain ⟨name, extra⟩ := attempt
    intro k last
    obtain ⟨hlen, hdone, hrejected⟩ := rounds_spec outcomes (config.request maxTokens extra)
      (1 + claudeApiMaxContinuations) k none {} [.user prompt]
    simp only [stepDown, List.length_cons, Nat.succ_mul]
    generalize rounds outcomes (config.request maxTokens extra) (1 + claudeApiMaxContinuations) k none {}
      [.user prompt] = attempted at hlen hdone hrejected ⊢
    cases hend : attempted.ending with
    | done final tally =>
      refine ⟨Nat.le_trans hlen (Nat.le_add_left _ _), ?_⟩
      intro envelope h
      cases h
      obtain ⟨hall, htokens⟩ := hdone final tally hend
      refine ⟨[], window outcomes k attempted.requests.length, rfl, .inl rfl, hall, ?_⟩
      exact htokens.trans (zero_add _)
    | failed reason =>
      refine ⟨Nat.le_trans hlen (Nat.le_add_left _ _), ?_⟩
      intro envelope h
      cases h
    | rejected reason =>
      obtain ⟨front, hfront⟩ := hrejected reason hend
      obtain ⟨hrest, hreturns⟩ := ih (k + attempted.requests.length) (some reason)
      simp only [List.length_append, window_append, hfront]
      refine ⟨by omega, ?_⟩
      intro envelope h
      obtain ⟨pre, post, hread, hpre, hpost, htokens⟩ := hreturns envelope h
      refine ⟨front ++ [.rejected reason] ++ pre, post, by rw [hread, List.append_assoc _ pre], ?_, hpost,
        htokens⟩
      right
      rcases hpre with rfl | ⟨front', reason', rfl⟩
      · exact ⟨front, reason, by simp⟩
      · exact ⟨front ++ [.rejected reason] ++ front', reason', by simp⟩

/-- A call makes at most twenty requests, and its envelope reports what its completed streams used
exactly where the streams that completed before its last rejection used no tokens: the counters start
again at zero with each attempt. -/
theorem consult_usage_exact (config : Config) (outcomes : Nat → Outcome) (prompt effort tools : PyStr)
    (maxOutputTokens : Int) :
    (consult config outcomes prompt effort tools maxOutputTokens).requests.length ≤ 20 ∧
      match (consult config outcomes prompt effort tools maxOutputTokens).result with
      | .error _ => True
      | .ok envelope =>
        (envelope.input, envelope.output) = paid (window outcomes 0
            (consult config outcomes prompt effort tools maxOutputTokens).requests.length) ↔
          paid (abandoned (window outcomes 0
            (consult config outcomes prompt effort tools maxOutputTokens).requests.length)) = 0 := by
  unfold consult
  cases heff : normalizeClaudeEffort effort with
  | error e => exact ⟨Nat.zero_le _, trivial⟩
  | ok eff =>
    obtain ⟨hlen, hreturns⟩ := stepDown_spec config outcomes prompt eff (clampTokens maxOutputTokens)
      (attempts eff (claudeApiToolsFor tools)) 0 none
    refine ⟨hlen, ?_⟩
    dsimp only
    cases hres : (stepDown config outcomes prompt eff (clampTokens maxOutputTokens)
      (attempts eff (claudeApiToolsFor tools)) 0 none).result with
    | error e => trivial
    | ok envelope =>
      obtain ⟨pre, post, hread, hpre, hpost, htokens⟩ := hreturns envelope hres
      simp only [hread, abandoned_append hpre hpost, paid_append, htokens]
      exact right_eq_add

/-- A paused reply, a continuation that the API rejects, and a second attempt that it answers. -/
def pausedThenRejected : Nat → Outcome
  | 0 => .completed ⟨[], some ⟨some 100, none, none, some 7⟩, some pauseTurn, none⟩
  | 1 => .rejected "400".toList
  | _ => .completed ⟨[.text "ok".toList], some ⟨some 10, none, none, some 3⟩, some "end_turn".toList, none⟩

theorem consult_drops_paid_round :
    let call := consult ⟨"m".toList, none, true, fun _ _ => []⟩ pausedThenRejected "p".toList "high".toList
      "none".toList 0
    call.result.toOption.map (fun envelope => (envelope.input, envelope.output)) = some (10, 3) ∧
      paid (window pausedThenRejected 0 call.requests.length) = (110, 10) := by
  decide

end Usage

end Danus.Strategy.ClaudeApi
