import Danus.FactGraph.Fact

/-! What the authoring tools share: the delimiters of a prompt and the body of a fact. -/
namespace Danus.Authoring
open Python

/-- `section` -/
def promptSection (name body : PyStr) : PyStr :=
  "\n\n===== BEGIN ".toList ++ name ++ " =====\n".toList ++ body ++ "\n===== END ".toList ++ name ++
    " =====\n".toList

/-- The lines around a body depend on its name alone. -/
theorem promptSection_frame (name : PyStr) : ∃ before after, ∀ body, promptSection name body =
    before ++ body ++ after := by
  refine ⟨"\n\n===== BEGIN ".toList ++ name ++ " =====\n".toList, "\n===== END ".toList ++ name ++ " =====\n".toList,
    fun body => ?_⟩
  unfold promptSection
  generalize "\n\n===== BEGIN ".toList = opening, "\n===== END ".toList = closing, " =====\n".toList = rule
  simp only [List.append_assoc]

/-- `line.lstrip().startswith("## ")` -/
def isHeading (line : PyStr) : Bool := FactGraph.startsWith "## ".toList (lstrip line)

/-- The lines from the first heading on. -/
def fromHeading : List PyStr → Option (List PyStr)
  | [] => none
  | line :: lines => if isHeading line then some (line :: lines) else fromHeading lines

/-- The lines after the fence that closes the frontmatter. -/
def afterFence : List PyStr → Option (List PyStr)
  | [] => none
  | line :: lines => if strip line = "---".toList then some lines else afterFence lines

/-- `body_sections` -/
def bodySections (raw : PyStr) : PyStr :=
  let lines := splitlines raw
  match fromHeading lines with
  | some body => rstrip (joinWith ['\n'] body) ++ ['\n']
  | none =>
    match lines with
    | first :: rest =>
      match (if strip first = "---".toList then afterFence rest else none) with
      | some body => strip (joinWith ['\n'] body) ++ ['\n']
      | none => strip raw ++ ['\n']
    | [] => strip raw ++ ['\n']

end Danus.Authoring
