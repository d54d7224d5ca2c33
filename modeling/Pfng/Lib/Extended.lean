import Mathlib.Algebra.Order.Field.Basic
import Mathlib.Algebra.Order.Group.Unbundled.Abs

/-! Floating-point values with exact finite arithmetic, two infinities and NaN. Comparisons with
NaN are false. Zero has no sign, so a quotient by zero is only used as a non-finite value. -/

inductive Extended (α : Type*)
  | finite (x : α)
  | infinite (negative : Bool)
  | nan
  deriving DecidableEq

namespace Extended

variable {α : Type*} [Field α] [LinearOrder α]

def fabs : Extended α → Extended α
  | finite x => finite |x|
  | infinite _ => infinite false
  | nan => nan

def sub : Extended α → Extended α → Extended α
  | finite x, finite y => finite (x - y)
  | finite _, infinite s => infinite (!s)
  | infinite s, finite _ => infinite s
  | infinite s, infinite t => if s = t then nan else infinite s
  | nan, _ => nan
  | _, nan => nan

def mul : Extended α → Extended α → Extended α
  | finite x, finite y => finite (x * y)
  | finite x, infinite s => if x = 0 then nan else infinite (s ^^ decide (x < 0))
  | infinite s, finite y => if y = 0 then nan else infinite (s ^^ decide (y < 0))
  | infinite s, infinite t => infinite (s ^^ t)
  | nan, _ => nan
  | _, nan => nan

def div : Extended α → Extended α → Extended α
  | finite x, finite y =>
      if y ≠ 0 then finite (x / y) else if x = 0 then nan else infinite (decide (x < 0))
  | finite _, infinite _ => finite 0
  | infinite s, finite y => infinite (s ^^ decide (y < 0))
  | infinite _, infinite _ => nan
  | nan, _ => nan
  | _, nan => nan

/-- `x < y`. -/
def lt : Extended α → Extended α → Bool
  | finite x, finite y => x < y
  | finite _, infinite s => !s
  | infinite s, finite _ => s
  | infinite s, infinite t => s && !t
  | nan, _ => false
  | _, nan => false

/-- `std::max(x, y)`, which keeps its first argument when the comparison is false. -/
def stdMax (x y : Extended α) : Extended α := if x.lt y then y else x

/-- `x == y`. -/
def equal : Extended α → Extended α → Bool
  | finite x, finite y => x = y
  | infinite s, infinite t => s = t
  | _, _ => false

section Sub

variable {α : Type*} [Field α] (x y : α) (s t : Bool) (a : Extended α)

@[simp] theorem sub_finite : sub (finite x) (finite y) = finite (x - y) := rfl
@[simp] theorem sub_infinite : sub (finite x) (infinite s) = infinite (!s) := rfl
@[simp] theorem infinite_sub : sub (infinite s) (finite x) = infinite s := rfl
@[simp] theorem infinite_sub_infinite :
    sub (infinite s : Extended α) (infinite t) = if s = t then nan else infinite s := rfl
@[simp] theorem nan_sub : sub nan a = nan := rfl
@[simp] theorem sub_nan : sub a nan = nan := by cases a <;> rfl

end Sub

section Order

variable {α : Type*} [LinearOrder α] (x y : α) (s t : Bool) (a : Extended α)

@[simp] theorem lt_finite : lt (finite x) (finite y) = decide (x < y) := rfl
@[simp] theorem lt_infinite : lt (finite x) (infinite s) = !s := rfl
@[simp] theorem infinite_lt : lt (infinite s) (finite x) = s := rfl
@[simp] theorem lt_nan : lt a nan = false := by cases a <;> rfl

@[simp] theorem stdMax_finite : stdMax (finite x) (finite y) = finite (max x y) := by
  rw [stdMax, lt_finite]
  rcases lt_or_ge x y with h | h
  · rw [if_pos (decide_eq_true h), max_eq_right h.le]
  · rw [if_neg (by simpa using h), max_eq_left h]

end Order

section Magnitude

variable (x y : α) (s t : Bool) (a : Extended α)

@[simp] theorem fabs_finite : fabs (finite x) = finite |x| := rfl
@[simp] theorem fabs_infinite : fabs (infinite s : Extended α) = infinite false := rfl
@[simp] theorem fabs_nan : fabs (nan : Extended α) = nan := rfl

theorem div_finite {y : α} (h : y ≠ 0) : div (finite x) (finite y) = finite (x / y) := if_pos h

@[simp] theorem mul_finite : mul (finite x) (finite y) = finite (x * y) := rfl

@[simp] theorem infinite_div : div (infinite s) (finite y) = infinite (s ^^ decide (y < 0)) := rfl
@[simp] theorem infinite_div_infinite : div (infinite s : Extended α) (infinite t) = nan := rfl

end Magnitude

end Extended
