/-
**Variables**

Two questions are asked of a token.  The prover asks whether it stands for a value that a proof may
choose, and decides by the first character alone: everything up to `Z` in code point order is a
variable, so capitalised names are, but digits and the empty token are too.  The learner asks whether
a token is one of the names that it would itself invent for a clause: a capital ASCII letter followed
by ASCII letters and digits.

New names are taken from the enumeration `A, …, Z, A1, …, Z1, A2, …`, which never runs out.

Main definitions:

* `isVariable` — the prover's question;
* `isClauseVariable` — the learner's question;
* `variableName`, `freshName` — the enumeration of names, and its first name that is not taken.
-/

set_option relaxedAutoImplicit false
set_option autoImplicit false

namespace ClauseForest

/-- Whether a token stands for a value that a proof may choose. -/
def isVariable (token : String) : Bool :=
  match token.toList with
  | [] => true
  | c :: _ => c.val ≤ 'Z'.val

/-- Whether a token is a variable name of the learner's own form. -/
def isClauseVariable (token : String) : Bool :=
  match token.toList with
  | [] => false
  | c :: rest => c.isUpper && rest.all Char.isAlphanum

/-- A variable name of the learner's own form is a variable for the prover. -/
theorem isVariable_of_isClauseVariable {token : String} (h : isClauseVariable token = true) :
    isVariable token = true := by
  unfold isClauseVariable at h
  unfold isVariable
  split at h
  · exact absurd h (by simp)
  · have hu := (Bool.and_eq_true _ _ ▸ h).1
    exact decide_eq_true (of_decide_eq_true hu).2

/-- The name at position `n` of the enumeration `A, …, Z, A1, …, Z1, A2, …`. -/
def variableName (n : Nat) : String :=
  String.ofList
    (Char.ofNat ('A'.toNat + n % 26) :: if n < 26 then [] else Nat.toDigits 10 (n / 26))

/-- The first name of the enumeration that is not taken. -/
def freshName (taken : List String) : String :=
  ((List.range (taken.length + 1)).map variableName).find? (· ∉ taken) |>.getD ""

/-- A number of new names, each taken once it is given out. -/
def freshNames (taken : List String) : Nat → List String
  | 0 => []
  | count + 1 =>
    let name := freshName taken
    name :: freshNames (taken ++ [name]) count

end ClauseForest
