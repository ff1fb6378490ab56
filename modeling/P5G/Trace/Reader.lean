import P5G.Dict
import P5G.Control.Json
import P5G.Text.Numeral
import P5G.Text.Lines

/-!
# The readers of trace files

`read_trace` of trace_io.py and `rows` of fusion_report.py, over the text of a
file, or no file.  The texts are ASCII; a cell that reads as a float stands for
the float that its text denotes.
-/

namespace P5G
namespace TraceIo

inductive Value where
  | int (i : Int)
  | float (text : List Char)
  | str (text : List Char)
  deriving DecidableEq

def num (v : List Char) : Value :=
  match Numeral.int v with
  | some i => .int i
  | none => if Numeral.isFloat v then .float v else .str v

/-- A value of the footer dict: a text of the file, or the count of malformed
rows. -/
inductive FooterValue where
  | text (v : List Char)
  | count (n : Nat)
  deriving DecidableEq

abbrev Footer := Dict (List Char) FooterValue

def malformedRows : List Char := "malformed_rows".toList

/-- `str.split()` -/
def words (text : List Char) : List (List Char) :=
  (text.splitOnP Numeral.isSpace).filter (· ≠ [])

def addToken (footer : Footer) (tok : List Char) : Footer :=
  if '=' ∈ tok then
    footer.set (tok.takeWhile (· ≠ '=')) (.text ((tok.dropWhile (· ≠ '=')).drop 1))
  else footer

/-- `footer["malformed_rows"] += 1`, which fails on a text. -/
def addMalformed (footer : Footer) : Except PyError Footer :=
  match footer.get? malformedRows with
  | none => .ok (footer.set malformedRows (.count 1))
  | some (.count n) => .ok (footer.set malformedRows (.count (n + 1)))
  | some (.text _) => .error .typeError

structure Reading where
  header : Option (List (List Char))
  rows : List (Dict (List Char) Value)
  footer : Footer

namespace Reading

def init : Reading := ⟨none, [], Dict.empty⟩

/-- The loop body of `read_trace`. -/
def line (r : Reading) (line : List Char) : Except PyError Reading :=
  let line := Lines.chomp line
  if line = [] then .ok r
  else if line.head? = some '#' then
    .ok { r with footer := (words (line.drop 1)).foldl addToken r.footer }
  else
    match r.header with
    | none => .ok { r with header := some (line.splitOn ',') }
    | some header =>
      let vals := line.splitOn ','
      if vals.length ≠ header.length then
        (addMalformed r.footer).map fun footer => { r with footer := footer }
      else .ok { r with rows := r.rows ++ [Dict.ofPairs (header.zip (vals.map num))] }

end Reading

def readTrace (file : Option (List Char)) :
    Except PyError (List (Dict (List Char) Value) × Footer) :=
  match file with
  | none => .ok ([], Dict.empty)
  | some text =>
    ((Lines.fileLines (Lines.universal false text)).foldlM Reading.line Reading.init).map
      fun r => (r.rows, r.footer)

/-- `csv.reader` on a line without quotation marks. -/
def csvRow (line : List Char) : List (List Char) :=
  match Lines.chomp line with
  | [] => []
  | line => line.splitOn ','

/-- A row of `csv.DictReader`: a missing column has no value, and what is over
stands under the key `None`. -/
structure Record where
  fields : Dict (List Char) (Option (List Char))
  rest : List (List Char)

def record (names row : List (List Char)) : Record where
  fields := Dict.ofPairs (names.zip (row.map some) ++ (names.drop row.length).map fun k => (k, none))
  rest := row.drop names.length

def dictReader (lines : List (List Char)) : List Record :=
  match lines.map csvRow with
  | [] => []
  | names :: rows => (rows.filter (· ≠ [])).map (record names)

/-- `None not in r.values()` -/
def Record.complete (r : Record) : Bool := r.fields.entries.all fun e => e.2.isSome

/-- `rows` -/
def fusionRows (file : Option (List Char)) : List Record :=
  match file with
  | none => []
  | some text =>
    (dictReader ((Lines.fileLines (Lines.universal false text)).filter
      fun l => l.head? ≠ some '#')).filter Record.complete

end TraceIo
end P5G
