import Paging.Request

/-!
The options of the command line. Values follow an option as the next argument, after an equals sign, or
directly after a one-letter option. Options come once each, in any order, and there are no other arguments.
What an argument leaves open comes from its environment variable, and else from its default.
-/

namespace Paging.Cli

inductive Flag
  | input
  | sortField
  | desc
  | tieBreaker
  | limit
  | cursor
  | offset
  | page
  | noCount
  | defaultLimit
  | maxLimit
  | includeCount
  deriving DecidableEq, Repr

namespace Flag

def all : List Flag :=
  [.input, .sortField, .desc, .tieBreaker, .limit, .cursor, .offset, .page, .noCount, .defaultLimit,
    .maxLimit, .includeCount]

def name : Flag → String
  | .input => "input"
  | .sortField => "sort-field"
  | .desc => "desc"
  | .tieBreaker => "tie-breaker"
  | .limit => "limit"
  | .cursor => "cursor"
  | .offset => "offset"
  | .page => "page"
  | .noCount => "no-count"
  | .defaultLimit => "pagination-default-limit"
  | .maxLimit => "pagination-max-limit"
  | .includeCount => "pagination-include-count"

/-- The option of a name, which may not be abbreviated. -/
def ofName? (name : String) : Option Flag := all.find? fun flag => flag.name == name

def ofLetter? : Char → Option Flag
  | 'i' => some .input
  | 's' => some .sortField
  | 'l' => some .limit
  | _ => none

def takesValue : Flag → Bool
  | .desc => false
  | .noCount => false
  | _ => true

/-- The variable that stands in for an option. -/
def envName? : Flag → Option String
  | .input => some "PAGEKIT_INPUT"
  | .defaultLimit => some "PAGINATION_DEFAULT_LIMIT"
  | .maxLimit => some "PAGINATION_MAX_LIMIT"
  | .includeCount => some "PAGINATION_INCLUDE_COUNT"
  | _ => none

end Flag

/-- An unsigned number of 64 bits, with a plus sign and zeros in front if one likes. -/
def number? (text : String) : Option UInt64 :=
  let digits := match text.toList with
    | '+' :: digits => digits
    | digits => digits
  if digits ≠ [] ∧ digits.all Char.isDigit then
    let value := Nat.ofDigitChars 10 digits 0
    if value < UInt64.size then some (UInt64.ofNat value) else none
  else none

def boolean? (text : String) : Option Bool :=
  if text = "true" then some true
  else if text = "false" then some false
  else none

inductive Stop
  | usage
  | version
  | help
  deriving DecidableEq, Repr

/-- Whether an option accepts a value. Only the path of the input may not be empty. -/
def Flag.accepts (flag : Flag) (value : String) : Bool :=
  match flag with
  | .input => value != ""
  | .limit => (number? value).isSome
  | .offset => (number? value).isSome
  | .page => (number? value).isSome
  | .defaultLimit => (number? value).isSome
  | .maxLimit => (number? value).isSome
  | .includeCount => (boolean? value).isSome
  | _ => true

abbrev Given := List (Flag × String)

/-- One more option with its value, unless it was given before or does not accept the value. -/
def Given.add (given : Given) (flag : Flag) (value : String) : Except Stop Given :=
  if (given.lookup flag).isSome || !flag.accepts value then .error .usage
  else .ok ((flag, value) :: given)

/-- What an argument is by its looks. -/
inductive Argument
  /-- Two hyphens, after which nothing is an option. -/
  | escape
  | long (name : String) (value : Option String)
  | short (letter : Char) (attached : List Char)
  | plain (text : String)
  deriving DecidableEq, Repr

/-- The text before the first equals sign, and the text after it if there is one. -/
def splitAtEquals (text : List Char) : List Char × Option (List Char) :=
  match text.dropWhile (· != '=') with
  | _ :: value => (text.takeWhile (· != '='), some value)
  | [] => (text, none)

/-- A lone hyphen is a plain argument. -/
def Argument.of (text : String) : Argument :=
  match text.toList with
  | ['-', '-'] => .escape
  | '-' :: '-' :: rest =>
    let (name, value) := splitAtEquals rest
    .long (String.ofList name) (value.map String.ofList)
  | '-' :: letter :: attached => .short letter attached
  | _ => .plain text

/-- An option and the value attached to its argument. -/
def Argument.option? : Argument → Except Stop (Flag × Option String)
  | .long name value =>
    match Flag.ofName? name, value with
    | some flag, _ => .ok (flag, value)
    | none, none => .error (if name = "version" then .version else if name = "help" then .help else .usage)
    | none, some _ => .error .usage
  | .short letter attached =>
    match Flag.ofLetter? letter with
    | some flag => .ok (flag, match attached with
      | [] => none
      | '=' :: value => some (String.ofList value)
      | value => some (String.ofList value))
    | none => .error (if letter = 'V' then .version else if letter = 'h' then .help else .usage)
  | .escape => .error .usage
  | .plain _ => .error .usage

/-- Collects options from the left. The first fault, or the first call for the version, ends that. -/
def collect (given : Given) : List String → Except Stop Given
  | [] => .ok given
  | "--" :: rest => if rest.isEmpty then .ok given else .error .usage
  | argument :: rest =>
    match (Argument.of argument).option? with
    | .error stop => .error stop
    | .ok (flag, some value) =>
      if flag.takesValue then
        match given.add flag value with
        | .error stop => .error stop
        | .ok given => collect given rest
      else .error .usage
    | .ok (flag, none) =>
      if flag.takesValue then
        match rest with
        | value :: rest =>
          match Argument.of value with
          | .plain _ =>
            match given.add flag value with
            | .error stop => .error stop
            | .ok given => collect given rest
          | _ => .error .usage
        | [] => .error .usage
      else
        match given.add flag "" with
        | .error stop => .error stop
        | .ok given => collect given rest

/-- The options that are given by variables of the environment only. -/
def fromEnvironment (env : String → Option String) (given : Given) : List Flag → Except Stop Given
  | [] => .ok given
  | flag :: flags =>
    match given.lookup flag, flag.envName?.bind env with
    | none, some value =>
      match given.add flag value with
      | .error stop => .error stop
      | .ok given => fromEnvironment env given flags
    | _, _ => fromEnvironment env given flags

def Given.has (given : Given) (flag : Flag) : Bool := (given.lookup flag).isSome

/-- Options that exclude each other: the ways to choose a page, and a page number without a count. -/
def Given.conflict (given : Given) : Bool :=
  (given.has .cursor && (given.has .offset || given.has .page)) ||
    (given.has .offset && given.has .page) || (given.has .noCount && given.has .page)

structure Invocation where
  input : String
  sort : SortKey
  tieBreaker : String
  limit : Option UInt64
  cursor : Option String
  offset : Option UInt64
  page : Option UInt64
  noCount : Bool
  policy : Policy
  deriving DecidableEq, Repr

/-- What given options ask for. The input is required. -/
def Given.invocation? (given : Given) : Option Invocation := do
  let standard : Policy := {}
  let input ← given.lookup .input
  let number (flag : Flag) : Option UInt64 := (given.lookup flag).bind number?
  return {
    input := input
    sort :=
      { field := (given.lookup .sortField).getD defaultTieBreaker
        direction := if given.has .desc then .descending else .ascending }
    tieBreaker := (given.lookup .tieBreaker).getD defaultTieBreaker
    limit := number .limit
    cursor := given.lookup .cursor
    offset := number .offset
    page := number .page
    noCount := given.has .noCount
    policy :=
      { defaultLimit := (number .defaultLimit).getD standard.defaultLimit
        maxLimit := (number .maxLimit).getD standard.maxLimit
        includeCount := ((given.lookup .includeCount).bind boolean?).getD standard.includeCount } }

/-- Reads the arguments of the command line, the name of the program not among them. -/
def Invocation.ofArguments (env : String → Option String) (arguments : List String) :
    Except Stop Invocation := do
  let given ← collect [] arguments
  let given ← fromEnvironment env given Flag.all
  if given.conflict then .error .usage
  else match given.invocation? with
    | some invocation => .ok invocation
    | none => .error .usage

end Paging.Cli
