import Paging.Binary64.Comparison
import Paging.Calendar.Time
import Paging.Uuid

/-!
Scalars, the values that rows are sorted by, and their order. Integers and floats are one kind and compare
by exact value. Scalars of different kinds compare by kind.
-/

namespace Paging

/-- The kinds of scalars, in ascending order. -/
inductive Scalar.Kind
  | bool
  | number
  | text
  | date
  | dateTime
  | timestamp
  | uuid
  deriving DecidableEq, Repr

inductive Scalar
  | bool (value : Bool)
  | int (value : Int64)
  | float (value : Binary64)
  | text (value : String)
  | date (value : Calendar.Date)
  | dateTime (value : Calendar.DateTime)
  | timestamp (value : Calendar.Instant)
  | uuid (value : Uuid)
  deriving DecidableEq

namespace Scalar

namespace Kind

def rank : Kind → Nat
  | .bool => 0
  | .number => 1
  | .text => 2
  | .date => 3
  | .dateTime => 4
  | .timestamp => 5
  | .uuid => 6

instance : Ord Kind where
  compare := compareOn rank

def name : Kind → String
  | .bool => "bool"
  | .number => "number"
  | .text => "text"
  | .date => "date"
  | .dateTime => "date_time"
  | .timestamp => "timestamp"
  | .uuid => "uuid"

def all : List Kind := [.bool, .number, .text, .date, .dateTime, .timestamp, .uuid]

def ofName? (name : String) : Option Kind := all.find? fun kind => kind.name == name

end Kind

def kind : Scalar → Kind
  | .bool _ => .bool
  | .int _ => .number
  | .float _ => .number
  | .text _ => .text
  | .date _ => .date
  | .dateTime _ => .dateTime
  | .timestamp _ => .timestamp
  | .uuid _ => .uuid

def order : Scalar → Scalar → Ordering
  | .bool a, .bool b => compare a b
  | .int a, .int b => compare a b
  | .float a, .float b => a.compareFloats b
  | .int a, .float b => Binary64.compareInt a b
  | .float a, .int b => (Binary64.compareInt b a).swap
  | .text a, .text b => compare a b
  | .date a, .date b => compare a b
  | .dateTime a, .dateTime b => compare a b
  | .timestamp a, .timestamp b => compare a b
  | .uuid a, .uuid b => compare a b
  | a, b => compare a.kind b.kind

instance : Ord Scalar where
  compare := order

/-- Whether two scalars are equal in order; an integer and a float of its value are. -/
def Same (a b : Scalar) : Bool := compare a b == .eq

end Scalar

end Paging
