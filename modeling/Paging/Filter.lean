import Paging.Sort
import Paging.Scalar.Text

/-!
Range filters, which keep the rows whose value of a field lies strictly beyond a boundary.
-/

namespace Paging

inductive Comparison
  | greater
  | less
  deriving DecidableEq, Repr

def Comparison.operator : Comparison → String
  | .greater => ">"
  | .less => "<"

structure RangeFilter where
  field : String
  comparison : Comparison
  value : Scalar
  deriving DecidableEq

namespace RangeFilter

/-- The filter that keeps what comes strictly after a value in a direction. -/
def after (key : SortKey) (value : Scalar) : RangeFilter where
  field := key.field
  comparison := match key.direction with
    | .ascending => .greater
    | .descending => .less
  value := value

/-- Whether a value passes. A missing value never does. -/
def admits (filter : RangeFilter) : Option Scalar → Bool
  | some value =>
    match filter.comparison with
    | .greater => compare value filter.value == .gt
    | .less => compare value filter.value == .lt
  | none => false

/-- Whether a row passes. -/
def keeps {ρ : Type} [Row ρ] (filter : RangeFilter) (row : ρ) : Bool :=
  filter.admits (Row.value? row filter.field)

def text (filter : RangeFilter) : String :=
  filter.field ++ " " ++ filter.comparison.operator ++ " " ++ filter.value.display

end RangeFilter

end Paging
