import Danus.Lib.Json
import Danus.Lib.Sorting

/-! Texts with unpaired surrogates, which UTF-8 has no bytes for. -/
namespace Python

/-- A code point of a `str`: a scalar value, or one of the surrogates from `U+D800` on. -/
abbrev CodePoint : Type := Char ⊕ Fin 0x800

abbrev CodeText : Type := List CodePoint

namespace CodeText

def ofStr (s : PyStr) : CodeText := s.map .inl

/-- The text, when no code point of it is a surrogate. -/
def toStr? : CodeText → Option PyStr
  | [] => some []
  | .inl c :: t => (toStr? t).map (c :: ·)
  | .inr _ :: _ => none

/-- `text.encode("utf-8")` -/
def encode? (t : CodeText) : Option (List Nat) := (toStr? t).map encodeUtf8

/-- A surrogate is no white space. -/
def isBlank : CodePoint → Bool
  | .inl c => isSpace c
  | .inr _ => false

/-- `text.strip()` -/
def strip (t : CodeText) : CodeText :=
  ((t.dropWhile isBlank).reverse.dropWhile isBlank).reverse

/-- A string of `json.dumps` with `ensure_ascii=False`, which leaves surrogates as they are. -/
def quote (t : CodeText) : CodeText :=
  ofStr ['"'] ++ t.flatMap (fun
    | .inl c => ofStr (Json.escapeChar false c)
    | .inr s => [.inr s]) ++ ofStr ['"']

/-- No code point is a surrogate. -/
def Encodes (t : CodeText) : Prop := ∀ c ∈ t, c.isLeft = true

instance (t : CodeText) : Decidable (Encodes t) := inferInstanceAs (Decidable (∀ c ∈ t, _))

variable {t u : CodeText}

theorem encodes_ofStr (s : PyStr) : Encodes (ofStr s) := by
  intro c hc
  obtain ⟨a, -, rfl⟩ := List.mem_map.mp hc
  rfl

@[simp] theorem toStr?_ofStr (s : PyStr) : toStr? (ofStr s) = some s := by
  induction s with
  | nil => rfl
  | cons c s ih =>
    change (toStr? (ofStr s)).map (c :: ·) = _
    rw [ih]
    rfl

theorem toStr?_isSome_iff : (toStr? t).isSome ↔ Encodes t := by
  induction t with
  | nil => simp [toStr?, Encodes]
  | cons c t ih =>
    cases c with
    | inl c => simpa [toStr?, Encodes] using ih
    | inr s => simp [toStr?, Encodes]

theorem encode?_isSome_iff : (encode? t).isSome ↔ Encodes t := by
  rw [encode?, Option.isSome_map, toStr?_isSome_iff]

@[simp] theorem encodes_append : Encodes (t ++ u) ↔ Encodes t ∧ Encodes u := by
  simp only [Encodes, List.mem_append, or_imp, forall_and]

theorem encodes_flatMap {α : Type} {f : α → CodeText} {l : List α} :
    Encodes (l.flatMap f) ↔ ∀ a ∈ l, Encodes (f a) := by
  simp only [Encodes, List.mem_flatMap, forall_exists_index, and_imp]
  exact ⟨fun h a ha c hc => h c a ha hc, fun h c a ha hc => h a ha c hc⟩

theorem encodes_quote : Encodes (quote t) ↔ Encodes t := by
  simp only [quote, encodes_append, encodes_ofStr, true_and, and_true, encodes_flatMap]
  refine forall₂_congr fun c _ => ?_
  cases c with
  | inl c => simp [encodes_ofStr]
  | inr s => simp [Encodes]

/-- Parts joined by a separator that encodes. -/
theorem encodes_intercalate {sep : CodeText} (hsep : Encodes sep) (parts : List CodeText) :
    Encodes (sep.intercalate parts) ↔ ∀ p ∈ parts, Encodes p := by
  induction parts with
  | nil => simp [Encodes]
  | cons p parts ih =>
    cases parts with
    | nil => simp
    | cons p' parts =>
      rw [List.intercalate_cons_cons, encodes_append, encodes_append, ih, List.forall_mem_cons]
      simp [hsep]

end CodeText

/-- A parsed JSON value, whose texts may have surrogates; an object lists the items of its `dict`. -/
inductive RawJson where
  | null
  | bool (b : Bool)
  | int (i : Int)
  | float (x : PyFloat)
  | str (text : CodeText)
  | arr (items : List RawJson)
  | obj (items : List (CodeText × RawJson))

namespace RawJson

/-- `value.get(name)` of an object. -/
def get? (name : PyStr) : RawJson → Option RawJson
  | .obj items => items.lookup (CodeText.ofStr name)
  | _ => none

mutual
/-- How deep lists and objects nest. -/
def nesting : RawJson → Nat
  | .arr items => nestingItems items + 1
  | .obj items => nestingFields items + 1
  | _ => 0

def nestingItems : List RawJson → Nat
  | [] => 0
  | v :: vs => max (nesting v) (nestingItems vs)

def nestingFields : List (CodeText × RawJson) → Nat
  | [] => 0
  | (_, v) :: kvs => max (nesting v) (nestingFields kvs)
end

end RawJson
end Python
