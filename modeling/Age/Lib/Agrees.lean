import Mathlib.Data.List.Basic

/-!
# Two fallible computations that agree

Both fail with one error, or both return results that a relation holds of.
-/

namespace Age

variable {ε α β γ δ : Type}

def Agrees (relation : α → β → Prop) : Except ε α → Except ε β → Prop
  | .ok a, .ok b => relation a b
  | .error a, .error b => a = b
  | .ok _, .error _ => False
  | .error _, .ok _ => False

namespace Agrees

theorem bind {first : α → β → Prop} {second : γ → δ → Prop} {x : Except ε α} {y : Except ε β}
    {f : α → Except ε γ} {g : β → Except ε δ} (agrees : Agrees first x y)
    (next : ∀ a b, first a b → Agrees second (f a) (g b)) :
    Agrees second (x >>= f) (y >>= g) := by
  cases x with
  | error error => cases y with
    | error other => exact agrees
    | ok b => exact agrees.elim
  | ok a => cases y with
    | error other => exact agrees.elim
    | ok b => exact next a b agrees

theorem refl {relation : α → α → Prop} (same : ∀ a, relation a a) (x : Except ε α) :
    Agrees relation x x := by
  cases x with
  | error error => rfl
  | ok a => exact same a

theorem mono {first second : α → β → Prop} {x : Except ε α} {y : Except ε β}
    (agrees : Agrees first x y) (weaker : ∀ a b, first a b → second a b) :
    Agrees second x y := by
  cases x <;> cases y <;> first | exact agrees | exact weaker _ _ agrees

/-- Two computations that agree with a third agree with each other. -/
theorem join {first : α → γ → Prop} {second : β → γ → Prop} {both : α → β → Prop}
    {x : Except ε α} {y : Except ε β} {z : Except ε γ} (left : Agrees first x z)
    (right : Agrees second y z) (joins : ∀ a b c, first a c → second b c → both a b) :
    Agrees both x y := by
  cases z with
  | error error =>
      cases x <;> cases y <;> first | exact left.trans right.symm | exact left.elim | exact right.elim
  | ok c =>
      cases x <;> cases y <;> first | exact joins _ _ c left right | exact left.elim | exact right.elim

end Agrees

end Age
