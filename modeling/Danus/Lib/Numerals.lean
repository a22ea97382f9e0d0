import Danus.Lib.Text

/-! Decimal numerals: they are not empty, and tell numbers apart. -/
namespace Python

variable {m n : Nat}

theorem natText_inj (h : natText m = natText n) : m = n := by
  rw [natText, natText, Nat.toList_repr, Nat.toList_repr] at h
  have hm : Nat.ofDigitChars 10 (Nat.toDigits 10 m) 0 = m := Nat.ofDigitChars_ten_toDigits
  have hn : Nat.ofDigitChars 10 (Nat.toDigits 10 n) 0 = n := Nat.ofDigitChars_ten_toDigits
  rw [← hm, h, hn]

theorem natText_ne_nil (n : Nat) : natText n ≠ [] := by
  rw [natText, Nat.toList_repr]
  exact Nat.toDigits_ne_nil

end Python
