import InertText.Context.Builtin
import InertText.Number.Basic
import InertText.Text.Parts

/-!
# Options of a measurement

Every argument of the command line is either one setting or nothing at all. The
settings are made in order, so of two for the same option the later one counts,
and arguments without a meaning change nothing. Counts are brought into their
bounds when they are set.
-/
namespace InertText.Bench

inductive Format where
  | table
  | markdown
  | json
  deriving DecidableEq, Repr

/-- Which modes are measured. -/
inductive Selection where
  | both
  | only (mode : Mode)
  deriving DecidableEq, Repr

namespace Format

def all : List Format := [.table, .markdown, .json]

def name : Format → String
  | .table => "table"
  | .markdown => "md"
  | .json => "json"

def ofName? (t : Text) : Option Format := all.find? fun f => units f.name == t

end Format

namespace Selection

def all : List Selection := [.both, .only .encode, .only .filter]

def name : Selection → String
  | .both => "all"
  | .only mode => mode.name

def ofName? (t : Text) : Option Selection := all.find? fun s => units s.name == t

/-- The modes of a selection in the order in which they are measured. -/
def modes : Selection → List Mode
  | .both => [.encode, .filter]
  | .only mode => [mode]

end Selection

/-- What is measured, how often, and how it is shown. -/
structure Options where
  iterations : Nat
  warmup : Nat
  format : Format
  selection : Selection
  contexts : List Context
  deriving DecidableEq, Repr

/-- One option with its value. -/
inductive Setting where
  | iterations (n : Nat)
  | warmup (n : Nat)
  | format (f : Format)
  | selection (s : Selection)
  | contexts (cs : List Context)

namespace Setting

/-- The count that a value stands for. One that is read as an infinite number
stands for none. -/
def count? (value : Text) : Option Nat := value.toNat?.filter (· < Number.leastInfinite)

def isLineEnd (u : CodeUnit) : Bool := u == 0x0a || u == 0x0d || u == 0x2028 || u == 0x2029

/-- The contexts that a value lists: all of them, or the built-in names among its
parts between commas. A value that is empty or not on one line lists nothing. -/
def contextList? (value : Text) : Option (List Context) :=
  if value.isEmpty || value.any isLineEnd then none
  else if value = units "all" then some Context.all
  else some ((Text.splitOn (unit ',') value).filterMap Context.ofName?)

/-- The setting that an argument makes, if it makes one. -/
def ofArgument? (argument : Text) : Option Setting :=
  let value? (option : String) : Option Text := Text.dropPrefix? (units option) argument
  ((value? "--iterations=").bind count?).map iterations
    <|> ((value? "--warmup=").bind count?).map warmup
    <|> ((value? "--format=").bind Format.ofName?).map format
    <|> ((value? "--mode=").bind Selection.ofName?).map selection
    <|> ((value? "--contexts=").bind contextList?).map contexts

end Setting

namespace Options

def maxIterations : Nat := 2000000

def maxWarmup : Nat := 200000

def default : Options where
  iterations := 20000
  warmup := 2000
  format := .table
  selection := .both
  contexts := [
    .htmlContent, .xmlContent, .scriptInHtml, .jsonValue, .uriComponent, .cdataContent]

def set (o : Options) : Setting → Options
  | .iterations n => { o with iterations := max 1 (min n maxIterations) }
  | .warmup n => { o with warmup := min n maxWarmup }
  | .format f => { o with format := f }
  | .selection s => { o with selection := s }
  | .contexts cs => { o with contexts := cs }

def ofArguments (arguments : List Text) : Options :=
  (arguments.filterMap Setting.ofArgument?).foldl set default

end Options

end InertText.Bench
