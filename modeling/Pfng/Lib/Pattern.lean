import Mathlib.Data.List.Basic

/-! Backtracking patterns. A pattern gives the ways in which it takes a beginning of the text, in the
order in which a backtracking matcher tries them, each with its groups and the rest of the text. -/

def Pattern (α : Type) := List Char → List (α × List Char)

namespace Pattern

variable {α β : Type}

instance : Monad Pattern where
  pure x := fun text => [(x, text)]
  bind a f := fun text => (a text).flatMap fun way => f way.1 way.2

def one (p : Char → Bool) : Pattern Char
  | [] => []
  | c :: rest => if p c then [(c, rest)] else []

def literal : List Char → Pattern Unit
  | [], text => [((), text)]
  | _ :: _, [] => []
  | c :: more, d :: text => if c = d then literal more text else []

/-- As many characters as possible first. -/
def greedy (p : Char → Bool) : Pattern (List Char)
  | [] => [([], [])]
  | c :: rest => if p c then (greedy p rest).map (fun way => (c :: way.1, way.2)) ++ [([], c :: rest)]
      else [([], c :: rest)]

/-- As few characters as possible first. -/
def reluctant (p : Char → Bool) : Pattern (List Char)
  | [] => [([], [])]
  | c :: rest => ([], c :: rest) ::
      if p c then (reluctant p rest).map fun way => (c :: way.1, way.2) else []

/-- At least one character. -/
def repeated (p : Char → Bool) (more : (Char → Bool) → Pattern (List Char)) : Pattern (List Char) := do
  let first ← one p
  return first :: (← more p)

def either (a b : Pattern α) : Pattern α := fun text => a text ++ b text

def atEnd : Pattern Unit := fun text => if text = [] ∨ text = ['\n'] then [((), text)] else []

def first (a : Pattern α) (text : List Char) : Option α := (a text).head?.map Prod.fst

end Pattern
