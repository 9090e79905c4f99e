/-!
# Hexadecimal digits

Sixteen digits with letters of either case for ten to fifteen. Both cases are read; which one is
written is the writer's choice.
-/

namespace Paging.Text.Hex

/-- The value of a digit. -/
def value? (c : Char) : Option Nat :=
  if c.isDigit then some (c.toNat - 0x30)
  else if 'a' ≤ c ∧ c ≤ 'f' then some (c.toNat - 0x57)
  else if 'A' ≤ c ∧ c ≤ 'F' then some (c.toNat - 0x37)
  else none

/-- The digit of a number below sixteen, with a lower-case letter from ten on. -/
def lower (n : Nat) : Char :=
  if n < 10 then Char.ofNat (0x30 + n) else Char.ofNat (0x57 + n)

/-- The digit of a number below sixteen, with an upper-case letter from ten on. -/
def upper (n : Nat) : Char :=
  if n < 10 then Char.ofNat (0x30 + n) else Char.ofNat (0x37 + n)

theorem value?_lower {n : Nat} (h : n < 16) : value? (lower n) = some n := by
  have hAll : ∀ m : Fin 16, value? (lower m) = some m.val := by decide
  exact hAll ⟨n, h⟩

theorem value?_upper {n : Nat} (h : n < 16) : value? (upper n) = some n := by
  have hAll : ∀ m : Fin 16, value? (upper m) = some m.val := by decide
  exact hAll ⟨n, h⟩

end Paging.Text.Hex
