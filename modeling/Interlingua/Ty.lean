/-!
# Types

Types as written in a declaration or computed by inference.  A type is a value: it owns its
component types and refers to no node.

* `Ty.display` — the neutral text of a type.
* `Ty.wider?` — the arithmetic join of two numeric types.
* `Ty.element?` — what indexing a container yields.
-/

namespace Interlingua

inductive Ty where
  | int
  | float
  | bool
  | char
  | str
  | void
  /-- Not known, or not decidable; never a failure. -/
  | unknown
  | pointer (target : Ty)
  | reference (target : Ty)
  | array (item : Ty)
  | list (item : Ty)
  | set (item : Ty)
  | dict (key value : Ty)
  | tuple (items : List Ty)
  | user (name : String)
  | generic (name : String) (args : List Ty)
  deriving Repr, Inhabited

namespace Ty

mutual
/-- Equality of types as a computation. -/
def same : Ty → Ty → Bool
  | .int, .int | .float, .float | .bool, .bool | .char, .char | .str, .str | .void, .void
  | .unknown, .unknown => true
  | .pointer a, .pointer b | .reference a, .reference b | .array a, .array b
  | .list a, .list b | .set a, .set b => same a b
  | .dict k v, .dict k' v' => same k k' && same v v'
  | .tuple xs, .tuple ys => sameAll xs ys
  | .user m, .user n => m == n
  | .generic m xs, .generic n ys => m == n && sameAll xs ys
  | _, _ => false

/-- Equality of lists of types, item by item. -/
def sameAll : List Ty → List Ty → Bool
  | [], [] => true
  | x :: xs, y :: ys => same x y && sameAll xs ys
  | _, _ => false
end

mutual
theorem same_refl : ∀ a : Ty, same a a = true
  | .int | .float | .bool | .char | .str | .void | .unknown | .user _ => by simp [same]
  | .pointer a | .reference a | .array a | .list a | .set a => by simp [same, same_refl a]
  | .dict k v => by simp [same, same_refl k, same_refl v]
  | .tuple xs | .generic _ xs => by simp [same, sameAll_refl xs]

theorem sameAll_refl : ∀ xs : List Ty, sameAll xs xs = true
  | [] => by simp [sameAll]
  | x :: xs => by simp [sameAll, same_refl x, sameAll_refl xs]
end

mutual
theorem eq_of_same : ∀ a b : Ty, same a b = true → a = b := by
  intro a b h
  cases a <;> cases b <;> simp only [same, Bool.and_eq_true, beq_iff_eq, Bool.false_eq_true] at h
  case int.int | float.float | bool.bool | char.char | str.str | void.void
    | unknown.unknown => rfl
  case pointer.pointer a b | reference.reference a b | array.array a b | list.list a b
    | set.set a b => rw [eq_of_same a b h]
  case dict.dict k v k' v' => rw [eq_of_same k k' h.1, eq_of_same v v' h.2]
  case tuple.tuple xs ys => rw [eq_of_sameAll xs ys h]
  case user.user m n => rw [h]
  case generic.generic m xs n ys => rw [h.1, eq_of_sameAll xs ys h.2]

theorem eq_of_sameAll : ∀ xs ys : List Ty, sameAll xs ys = true → xs = ys := by
  intro xs ys h
  cases xs <;> cases ys <;> simp only [sameAll, Bool.and_eq_true, Bool.false_eq_true] at h
  case nil.nil => rfl
  case cons.cons x xs y ys => rw [eq_of_same x y h.1, eq_of_sameAll xs ys h.2]
end

/-- **The computed equality is equality.** -/
theorem same_iff (a b : Ty) : same a b = true ↔ a = b :=
  ⟨eq_of_same a b, fun h => h ▸ same_refl a⟩

instance : DecidableEq Ty := fun a b => decidable_of_decidable_of_iff (same_iff a b)

def isNumeric : Ty → Bool
  | .int | .float => true
  | _ => false

def isKnown : Ty → Bool
  | .unknown => false
  | _ => true

/-- The wider of two numeric types; nothing if either is not numeric. -/
def wider? : Ty → Ty → Option Ty
  | .int, .int => some .int
  | .int, .float | .float, .int | .float, .float => some .float
  | _, _ => none

/-- What indexing a value of this type yields. -/
def element? : Ty → Option Ty
  | .array item | .list item | .pointer item => some item
  | .dict _ value => some value
  | _ => none

mutual
/-- Neutral text of a type. -/
def display : Ty → String
  | .int => "int"
  | .float => "float"
  | .bool => "bool"
  | .char => "char"
  | .str => "string"
  | .void => "void"
  | .unknown => "unknown"
  | .pointer target => "*" ++ display target
  | .reference target => "&" ++ display target
  | .array item => "[" ++ display item ++ "]"
  | .list item => "list<" ++ display item ++ ">"
  | .set item => "set<" ++ display item ++ ">"
  | .dict key value => "dict<" ++ display key ++ ", " ++ display value ++ ">"
  | .tuple items => "(" ++ ", ".intercalate (displays items) ++ ")"
  | .user name => name
  | .generic name args => name ++ "<" ++ ", ".intercalate (displays args) ++ ">"

/-- Neutral texts of a list of types. -/
def displays : List Ty → List String
  | [] => []
  | item :: rest => display item :: displays rest
end

end Ty

end Interlingua
