import Mathlib.Data.Option.Basic

/-!
# Readers that end

A reader takes something off the front of a list.  Where its result says that less of the list is
left, readers that call each other come to an end.

* `Reading.Less`, `Reading.NoMore` — what is left of a list, with the bound on it.
* `Reading.plain` — a result without the bound.
* `Reading.within` — a result under another bound.
* `Reading.plain_bind`, `Reading.plain_within` — the equations of a reader hold of its plain
  results.
-/

namespace Interlingua.Reading

variable {τ α β : Type} {holds other : List τ → Prop}

/-- What is left of a list after something was read off it. -/
abbrev Less (input : List τ) := { rest : List τ // rest.length < input.length }

/-- What is left of a list after something may have been read off it. -/
abbrev NoMore (input : List τ) := { rest : List τ // rest.length ≤ input.length }

/-- What was read and what is left, without the bound on it. -/
def plain (result : Option (α × { rest : List τ // holds rest })) : Option (α × List τ) :=
  result.map fun (value, rest) => (value, rest.1)

/-- A reader that goes on goes on with the plain result. -/
theorem plain_bind {result : Option (α × { rest : List τ // holds rest })}
    {next : α × { rest : List τ // holds rest } → Option (β × { rest : List τ // other rest })}
    {plainNext : α × List τ → Option (β × List τ)}
    (h : ∀ value rest, plain (next (value, rest)) = plainNext (value, rest.1)) :
    plain (result >>= next) = plain result >>= plainNext := by
  cases result with
  | none => rfl
  | some found => exact h found.1 found.2

/-- A result under another bound. -/
def within (h : ∀ rest, holds rest → other rest)
    (result : Option (α × { rest : List τ // holds rest })) :
    Option (α × { rest : List τ // other rest }) :=
  result.map fun (value, rest) => (value, ⟨rest.1, h rest.1 rest.2⟩)

@[simp] theorem plain_within (h : ∀ rest, holds rest → other rest)
    (result : Option (α × { rest : List τ // holds rest })) :
    plain (within h result) = plain result := by
  cases result <;> rfl

end Interlingua.Reading
