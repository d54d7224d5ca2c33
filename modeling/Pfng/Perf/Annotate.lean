import Mathlib.Algebra.Order.Field.Rat
import Pfng.Lib.Dict
import Pfng.Lib.Pattern
import Pfng.Perf.Regions

/-! `parse_annotate_regions` of `pfng_perf`, with percentages as exact decimals. -/
namespace Pfng.Perf

section Expressions

variable (table : DigitTable)

/-- `\d`. -/
def isDecimal (c : Char) : Bool := (table.value c).isSome

def isHex (c : Char) : Bool := Numerals.isDigit 16 c

def isAny (c : Char) : Bool := c ≠ '\n'

/-- `ANNOTATE_SECTION_RE`, of whose groups only `dso` is used. -/
def ANNOTATE_SECTION_RE : Pattern Text := do
  let _ ← Pattern.greedy isSpace
  Pattern.literal "Percent".toList
  let _ ← Pattern.greedy isSpace
  Pattern.literal "|".toList
  let _ ← Pattern.greedy isSpace
  Pattern.literal "Source code & Disassembly of ".toList
  let dso ← Pattern.repeated isAny Pattern.reluctant
  Pattern.literal " for ".toList
  let _ ← Pattern.repeated isAny Pattern.reluctant
  Pattern.literal " (".toList
  let _ ← Pattern.repeated (isDecimal table) Pattern.greedy
  Pattern.literal " samples, percent: ".toList
  let _ ← Pattern.repeated (· ≠ ')') Pattern.greedy
  Pattern.literal ")".toList
  let _ ← Pattern.greedy isSpace
  Pattern.atEnd
  return dso

def ANNOTATE_SYMBOL_RE : Pattern Text := do
  let _ ← Pattern.greedy isSpace
  Pattern.literal ":".toList
  let _ ← Pattern.greedy isSpace
  let _ ← Pattern.repeated (isDecimal table) Pattern.greedy
  let _ ← Pattern.repeated isSpace Pattern.greedy
  let _ ← Pattern.repeated isHex Pattern.greedy
  let _ ← Pattern.repeated isSpace Pattern.greedy
  Pattern.literal "<".toList
  let symbol ← Pattern.greedy isAny
  Pattern.literal ">:".toList
  let _ ← Pattern.greedy isSpace
  Pattern.atEnd
  return symbol

/-- `\d+(?:\.\d*)?|\.\d+`. -/
def percentGroup : Pattern Text :=
  .either
    (do let whole ← Pattern.repeated (isDecimal table) Pattern.greedy
        let fraction ← Pattern.either
          (do Pattern.literal ".".toList
              return '.' :: (← Pattern.greedy (isDecimal table)))
          (pure [])
        return whole ++ fraction)
    (do Pattern.literal ".".toList
        return '.' :: (← Pattern.repeated (isDecimal table) Pattern.greedy))

def ANNOTATE_INSTRUCTION_RE : Pattern (Text × Text) := do
  let _ ← Pattern.greedy isSpace
  let percent ← percentGroup table
  let _ ← Pattern.greedy isSpace
  Pattern.literal ":".toList
  let _ ← Pattern.repeated isSpace Pattern.greedy
  let address ← Pattern.repeated isHex Pattern.greedy
  Pattern.literal ":".toList
  Pattern.either (do let _ ← Pattern.one isSpace) Pattern.atEnd
  return (percent, address)

/-- `str.strip`. -/
def strip (text : Text) : Text := (text.dropWhile isSpace).rdropWhile isSpace

def decimalValue (digits : Text) : ℕ :=
  digits.foldl (fun value c => value * 10 + (table.value c).getD 0) 0

/-- `float` of a percentage, without rounding. -/
def exactDecimal (text : Text) : ℚ :=
  let whole := text.takeWhile (· ≠ '.')
  let fraction := (text.dropWhile (· ≠ '.')).drop 1
  decimalValue table (whole ++ fraction) / 10 ^ fraction.length

end Expressions

section Lines

/-- `str.splitlines` breaks a text after each of these. -/
def isBreak (c : Char) : Bool :=
  c.toNat ∈ [0x0a, 0x0b, 0x0c, 0x0d, 0x1c, 0x1d, 0x1e, 0x85, 0x2028, 0x2029]

/-- A carriage return and a line feed are one break. -/
def joinBreaks : Text → Text
  | '\r' :: '\n' :: rest => '\n' :: joinBreaks rest
  | c :: rest => c :: joinBreaks rest
  | [] => []

/-- The line that the text begins with, and the lines after it. -/
def splitAtBreaks : Text → Text × List Text
  | [] => ([], [])
  | c :: rest =>
      let (line, lines) := splitAtBreaks rest
      if isBreak c then ([], line :: lines) else (c :: line, lines)

/-- `str.splitlines`: nothing after the last break is no line. -/
def splitlines (text : Text) : List Text :=
  let (line, lines) := splitAtBreaks (joinBreaks text)
  if (line :: lines).getLast? = some [] then (line :: lines).dropLast else line :: lines

/-- What a line is for the parser. -/
inductive Line
  | header (dso : Text)
  | symbol (name : Text)
  | instruction (percent : ℚ) (address : ℕ)
  | other

variable (table : DigitTable)

def classify (line : Text) : Line :=
  match (ANNOTATE_SECTION_RE table).first line with
  | some dso => .header (strip dso)
  | none =>
  match (ANNOTATE_SYMBOL_RE table).first line with
  | some symbol => .symbol (strip symbol)
  | none =>
  match (ANNOTATE_INSTRUCTION_RE table).first line with
  | some (percent, address) => .instruction (exactDecimal table percent) (Numerals.valueOf 16 address)
  | none => .other

def annotateLines (text : Text) : List Line := (splitlines text).map (classify table)

end Lines

section Parse

def PERCENT_TOLERANCE : ℚ := 1 / 2

/-- A section, with the fields that are read again. -/
structure Section where
  dso : Text
  symbol : Option Text

/-- The diagnostics, of whose texts only the values in them are kept; `N` is the type of a list of
names. -/
inductive Diagnostic (N : Type)
  | missing
  | invalid (line_number : ℕ) (percent : ℚ)
  | unmatched (name dso symbol : Text)
  | matched (name : Text) (sections : ℕ) (dso symbol : Text)
  | exceeds (name : Text) (percent : ℚ)
  | sum (names : N) (dso symbol : Text) (total : ℚ)

structure State where
  values : List (Text × ℚ)
  diagnostics : List (Diagnostic (List Text))
  /-- The sections before the current one. -/
  sections : List Section
  current : Option Section

def takes (dso symbol : Text) (address : ℕ) (region : Region) : Bool :=
  dso = region.dso ∧ symbol = region.symbol ∧ region.Contains address

/-- An instruction row of a section with a symbol. -/
def addInstruction (regions : List Region) (line_number : ℕ) (dso symbol : Text) (percent : ℚ)
    (address : ℕ) (state : State) : State :=
  if percent < 0 then
    { state with diagnostics := state.diagnostics ++ [.invalid line_number percent] }
  else
    match regions.find? (takes dso symbol address) with
    | some region =>
        { state with values := Dict.update region.name (fun v => v.getD 0 + percent) state.values }
    | none => state

/-- One line. -/
def step (regions : List Region) (state : State) (line : Line × ℕ) : State :=
  match line.1, state.current with
  | .header dso, current =>
      { state with sections := state.sections ++ current.toList, current := some ⟨dso, none⟩ }
  | .symbol name, some ⟨dso, none⟩ => { state with current := some ⟨dso, some name⟩ }
  | .instruction percent address, some ⟨dso, some symbol⟩ =>
      addInstruction regions line.2 dso symbol percent address state
  | _, _ => state

/-- What is said of one region at the end. -/
def regionDiagnostics (sections : List Section) (values : List (Text × ℚ)) (region : Region) :
    List (Diagnostic (List Text)) :=
  let matching := sections.countP fun s => s.dso = region.dso ∧ s.symbol = some region.symbol
  let value := (Dict.get? values region.name).getD 0
  (if matching = 0 then [.unmatched region.name region.dso region.symbol]
    else if 1 < matching then [.matched region.name matching region.dso region.symbol] else []) ++
  if 100 + PERCENT_TOLERANCE < value then [.exceeds region.name value] else []

/-- `selector_totals` and `selector_names`. -/
def selectorTotals (values : List (Text × ℚ)) (regions : List Region) : List ((Text × Text) × ℚ) :=
  Dict.collect Region.selector
    (fun region total => total.getD 0 + (Dict.get? values region.name).getD 0) [] regions

def selectorNames (regions : List Region) : List ((Text × Text) × List Text) :=
  Dict.collect Region.selector (fun region names => names.getD [] ++ [region.name]) [] regions

def selectorDiagnostics (values : List (Text × ℚ)) (regions : List Region) :
    List (Diagnostic (List Text)) :=
  (selectorTotals values regions).flatMap fun (selector, total) =>
    let names := (Dict.get? (selectorNames regions) selector).getD []
    if 1 < names.length ∧ 100 + PERCENT_TOLERANCE < total then [.sum names selector.1 selector.2 total]
    else []

def initialState (regions : List Region) : State :=
  ⟨Dict.collect Region.name (fun _ _ => 0) [] regions, [], [], none⟩

variable (table : DigitTable)

/-- `parse_annotate_regions`; `none` is a file that does not exist. -/
def parseAnnotateRegions (text : Option Text) (regions : List Region) :
    List (Text × ℚ) × List (Diagnostic (List Text)) :=
  match text with
  | none => ((initialState regions).values, [.missing])
  | some text =>
      let state := ((annotateLines table text).zipIdx 1).foldl (step regions) (initialState regions)
      let sections := state.sections ++ state.current.toList
      (state.values, state.diagnostics ++ regions.flatMap (regionDiagnostics sections state.values) ++
        selectorDiagnostics state.values regions)

end Parse

end Pfng.Perf
