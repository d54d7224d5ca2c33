import Mathlib.Data.List.DropRight
import Mathlib.Data.List.Pairwise
import Mathlib.Tactic.Common
import Pfng.Lib.Numerals

/-! `load_regions` of `pfng_perf`. A text is the list of its characters. -/
namespace Pfng.Perf

abbrev Text := List Char

/-- The decimal digits of Unicode, which depend on the interpreter's version of it. -/
structure DigitTable where
  value : Char → Option ℕ
  small : ∀ c d, value c = some d → d < 10
  ascii : ∀ c : Char, c.toNat < 128 →
    value c = if '0' ≤ c ∧ c ≤ '9' then some (c.toNat - '0'.toNat) else none

/-- A table with the digits of ASCII alone. -/
def asciiDigits : DigitTable where
  value c := if '0' ≤ c ∧ c ≤ '9' then some (c.toNat - '0'.toNat) else none
  small c d h := by
    split at h
    · next range =>
        cases h
        have last : c.toNat ≤ 57 := range.2
        change c.toNat - 48 < 10
        omega
    · cases h
  ascii _ _ := rfl

/-- `str.isspace` of one character. -/
def isSpace (c : Char) : Bool :=
  (9 ≤ c.toNat ∧ c.toNat ≤ 13) ∨ (28 ≤ c.toNat ∧ c.toNat ≤ 32) ∨ c.toNat = 0x85 ∨ c.toNat = 0xa0 ∨
    c.toNat = 0x1680 ∨ (0x2000 ≤ c.toNat ∧ c.toNat ≤ 0x200a) ∨ c.toNat = 0x2028 ∨ c.toNat = 0x2029 ∨
    c.toNat = 0x202f ∨ c.toNat = 0x205f ∨ c.toNat = 0x3000

section Literals

variable (table : DigitTable)

/-- Spaces and digits as `int` sees them. -/
def toAscii (c : Char) : Char :=
  if c.toNat < 127 then c
  else if isSpace c then ' '
  else match table.value c with
    | some d => Char.ofNat ('0'.toNat + d)
    | none => '?'

/-- Digits with single underscores between them. -/
def scanDigits (base : ℕ) : ℕ → Text → Option ℕ
  | value, [] => some value
  | value, '_' :: c :: rest =>
      if Numerals.isDigit base c then scanDigits base (value * base + Numerals.digitValue c) rest else none
  | value, c :: rest =>
      if Numerals.isDigit base c then scanDigits base (value * base + Numerals.digitValue c) rest else none

/-- A numeral of the base, which begins with a digit. -/
def scanNumeral (base : ℕ) : Text → Option ℕ
  | [] => none
  | c :: rest =>
      if Numerals.isDigit base c then scanDigits base (Numerals.digitValue c) rest else none

/-- After a prefix one underscore may stand. -/
def scanPrefixed (base : ℕ) : Text → Option ℕ
  | '_' :: rest => scanNumeral base rest
  | rest => scanNumeral base rest

def scanUnsigned : Text → Option ℕ
  | '0' :: x :: rest =>
      if x = 'x' ∨ x = 'X' then scanPrefixed 16 rest
      else if x = 'o' ∨ x = 'O' then scanPrefixed 8 rest
      else if x = 'b' ∨ x = 'B' then scanPrefixed 2 rest
      else (scanNumeral 10 ('0' :: x :: rest)).filter (· = 0)
  | text => scanNumeral 10 text

def scanSigned : Text → Option ℤ
  | '+' :: rest => (scanUnsigned rest).map Int.ofNat
  | '-' :: rest => (scanUnsigned rest).map fun n => -(n : ℤ)
  | rest => (scanUnsigned rest).map Int.ofNat

/-- `int(text, 0)`; `none` is a `ValueError`. -/
def intLiteral (text : Text) : Option ℤ :=
  let ascii := if text.all (·.toNat < 128) then text else text.map (toAscii table)
  scanSigned ((ascii.dropWhile Numerals.isSpace).rdropWhile Numerals.isSpace)

end Literals

/-- A value of a JSON object. Of a number with a fraction, a list or an object only what `str` and
`bool` make of it counts. -/
inductive Value
  | null
  | bool (b : Bool)
  | int (n : ℤ)
  | string (s : Text)
  | other (text : Text) (truth : Bool)
  deriving DecidableEq

/-- `str(value)`. -/
def Value.str : Value → Text
  | .null => "None".toList
  | .bool b => if b then "True".toList else "False".toList
  | .int n => (toString n).toList
  | .string s => s
  | .other text _ => text

def Value.truthy : Value → Bool
  | .null => false
  | .bool b => b
  | .int n => n ≠ 0
  | .string s => s ≠ []
  | .other _ truth => truth

abbrev Object := List (String × Value)

def Object.get (object : Object) (key : String) : Option Value := object.lookup key

/-- An element of a list of regions; of what is not an object only its `repr` counts. -/
inductive Item
  | object (fields : Object)
  | other (repr : Text)

/-- What a `for` loop takes its elements from. -/
inductive Iterable
  | elements (items : List Item)
  | scalar

inductive Entry
  | plain (regions : Iterable)
  | dict (fields : Object) (regions : Option Iterable)

structure Region where
  item : Object
  name : Text
  dso : Text
  symbol : Text
  start_int : ℤ
  end_int : ℤ
  deriving DecidableEq

/-- `ToolError` with its message, or an exception of Python. -/
inductive LoadError
  | tool (message : Text)
  | key (name : String)
  | value (text : Text)
  | type
  deriving DecidableEq

namespace Region

def selector (region : Region) : Text × Text := (region.dso, region.symbol)

def Contains (region : Region) (address : ℤ) : Prop :=
  region.start_int ≤ address ∧ address ≤ region.end_int

instance (region : Region) (address : ℤ) : Decidable (region.Contains address) :=
  inferInstanceAs (Decidable (_ ∧ _))

end Region

section Load

variable (table : DigitTable)

/-- `selectors`, where `None` and an empty text come to the same. -/
def Entry.selector (entry : Entry) (key : String) : Text :=
  match entry with
  | .plain _ => []
  | .dict fields _ =>
      match fields.get key with
      | some v => if v.truthy then v.str else []
      | none => []

/-- The elements of `entry` or of its `regions`. -/
def Entry.iterable : Entry → Iterable
  | .plain regions => regions
  | .dict _ regions => regions.getD (.elements [])

/-- `str(item.get(key) or selectors.get(key) or "")`. -/
def selectorOf (item : Object) (key : String) (default : Text) : Text :=
  match item.get key with
  | some v => if v.truthy then v.str else default
  | none => default

/-- `int(str(item[key]), 0)`. -/
def address (item : Object) (key : String) : Except LoadError ℤ :=
  match item.get key with
  | none => .error (.key key)
  | some v =>
      match intLiteral table v.str with
      | none => .error (.value v.str)
      | some n => .ok n

def regionName (item : Object) : Text := ((item.get "name").map Value.str).getD []

/-- The regions before that overlap with one of the same selectors. -/
def overlaps (region previous : Region) : Bool :=
  (previous.dso = region.dso ∧ previous.symbol = region.symbol) ∧
    region.start_int ≤ previous.end_int ∧ previous.start_int ≤ region.end_int

/-- One round of the loop: `regions` are those before, `names` theirs. -/
def loadItem (dso symbol : Text) (regions : List Region) (names : List Text) :
    Item → Except LoadError Region
  | .other repr => .error (.tool ("region entry must be an object: ".toList ++ repr))
  | .object item =>
      let name := regionName item
      if name = [] then .error (.tool "region is missing name".toList)
      else if name ∈ names then .error (.tool ("duplicate region name: ".toList ++ name))
      else
      let dso := selectorOf item "dso" dso
      let symbol := selectorOf item "symbol" symbol
      if dso = [] ∨ symbol = [] then
        .error (.tool ("region ".toList ++ name ++ " must define exact dso and symbol selectors".toList))
      else (address table item "start").bind fun start => (address table item "end").bind fun stop =>
      if stop < start then .error (.tool ("region ".toList ++ name ++ " has end before start".toList))
      else
      let region : Region := ⟨item, name, dso, symbol, start, stop⟩
      match regions.find? (overlaps region) with
      | some previous =>
          .error (.tool ("regions ".toList ++ previous.name ++ " and ".toList ++ name ++ " overlap".toList))
      | none => .ok region

def loadItems (dso symbol : Text) : List Region → List Item → Except LoadError (List Region)
  | regions, [] => .ok regions
  | regions, item :: items =>
      (loadItem table dso symbol regions (regions.map Region.name) item).bind fun region =>
      loadItems dso symbol (regions ++ [region]) items

/-- `load_regions`; `none` is a file that does not exist. -/
def loadRegions (file : Option (List (Text × Entry))) (kernel : Text) : Except LoadError (List Region) :=
  match file with
  | none => .ok []
  | some data =>
      let entry := (data.lookup kernel).getD (.plain (.elements []))
      match entry.iterable with
      | .scalar => .error .type
      | .elements items => loadItems table (entry.selector "dso") (entry.selector "symbol") [] items

end Load

section Accepted

/-- What the checks ask of a region alone. -/
structure Region.Valid (region : Region) : Prop where
  name : region.name ≠ []
  dso : region.dso ≠ []
  symbol : region.symbol ≠ []
  range : region.start_int ≤ region.end_int

/-- What they ask of two regions of one list. -/
def Region.Apart (previous region : Region) : Prop :=
  previous.name ≠ region.name ∧
    ¬ (previous.selector = region.selector ∧ ∃ address, previous.Contains address ∧ region.Contains address)

instance : Std.Symm Region.Apart where
  symm _ _ := fun ⟨other, apart⟩ =>
    ⟨other.symm, fun ⟨same, address, here, there⟩ => apart ⟨same.symm, address, there, here⟩⟩

structure Accepted (regions : List Region) : Prop where
  valid : ∀ region ∈ regions, region.Valid
  apart : regions.Pairwise Region.Apart

theorem Accepted.perm {regions regions' : List Region} (h : Accepted regions)
    (same : regions'.Perm regions) : Accepted regions' :=
  ⟨fun region member => h.valid region (same.mem_iff.mp member),
    same.symm.pairwise h.apart fun apart => symm apart⟩

theorem Accepted.names_nodup {regions : List Region} (h : Accepted regions) :
    (regions.map Region.name).Nodup :=
  List.pairwise_map.mpr (h.apart.imp fun apart => apart.1)

theorem Accepted.append {regions : List Region} {region : Region} (h : Accepted regions)
    (valid : region.Valid) (apart : ∀ previous ∈ regions, previous.Apart region) :
    Accepted (regions ++ [region]) := by
  refine ⟨fun r member => ?_, ?_⟩
  · rcases List.mem_append.mp member with old | new
    · exact h.valid r old
    · rwa [List.mem_singleton.mp new]
  · refine List.pairwise_append.mpr ⟨h.apart, List.pairwise_singleton _ _, ?_⟩
    intro previous member r new
    rw [List.mem_singleton.mp new]
    exact apart previous member

theorem overlaps_iff {region previous : Region} (h : region.Valid) (h' : previous.Valid) :
    overlaps region previous ↔ previous.selector = region.selector ∧
      ∃ address, previous.Contains address ∧ region.Contains address := by
  have range := h.range
  have range' := h'.range
  unfold overlaps Region.selector Region.Contains
  rw [decide_eq_true_iff, Prod.mk.injEq]
  refine and_congr Iff.rfl ⟨fun ⟨low, high⟩ => ?_, ?_⟩
  · exact ⟨max previous.start_int region.start_int, by omega, by omega⟩
  · rintro ⟨address, ⟨_, _⟩, _, _⟩
    exact ⟨by omega, by omega⟩

variable {table : DigitTable} {dso symbol : Text} {regions : List Region}

variable (table dso symbol) in
def resolve (item : Object) (start stop : ℤ) : Region :=
  ⟨item, regionName item, selectorOf item "dso" dso, selectorOf item "symbol" symbol, start, stop⟩

/-- An object is taken exactly when it is valid and apart from all before it. -/
theorem loadItem_object {item : Object} {start stop : ℤ} (first : address table item "start" = .ok start)
    (last : address table item "end" = .ok stop) (valid : ∀ region ∈ regions, region.Valid) :
    ((resolve dso symbol item start stop).Valid ∧
      (∀ previous ∈ regions, previous.Apart (resolve dso symbol item start stop)) ∧
      loadItem table dso symbol regions (regions.map Region.name) (.object item) =
        .ok (resolve dso symbol item start stop)) ∨
    (¬ ((resolve dso symbol item start stop).Valid ∧
      ∀ previous ∈ regions, previous.Apart (resolve dso symbol item start stop)) ∧
      ∃ message, loadItem table dso symbol regions (regions.map Region.name) (.object item) =
        .error (.tool message)) := by
  unfold loadItem
  dsimp only
  split_ifs with unnamed duplicate missing
  · exact .inr ⟨fun h => h.1.name unnamed, _, rfl⟩
  · obtain ⟨previous, member, same⟩ := List.mem_map.mp duplicate
    exact .inr ⟨fun h => (h.2 previous member).1 same, _, rfl⟩
  · refine .inr ⟨fun h => ?_, _, rfl⟩
    exact missing.elim h.1.dso h.1.symbol
  · rw [not_or] at missing
    simp only [first, last, Except.bind]
    split_ifs with backwards
    · refine .inr ⟨fun h => ?_, _, rfl⟩
      exact absurd h.1.range (Int.not_le.mpr backwards)
    · have whole : (resolve dso symbol item start stop).Valid :=
        ⟨unnamed, missing.1, missing.2, Int.not_lt.mp backwards⟩
      cases found : regions.find? (overlaps (resolve dso symbol item start stop)) with
      | some previous =>
          have member := List.mem_of_find?_eq_some found
          have meet := (overlaps_iff whole (valid previous member)).mp
            (List.find?_some (p := overlaps (resolve dso symbol item start stop)) found)
          refine .inr ⟨fun h => (h.2 previous member).2 meet, ?_⟩
          unfold resolve at found
          rw [found]
          exact ⟨_, rfl⟩
      | none =>
          rw [List.find?_eq_none] at found
          refine .inl ⟨whole, fun previous member => ⟨?_, fun meet => ?_⟩, ?_⟩
          · exact fun same => duplicate (List.mem_map.mpr ⟨previous, member, same⟩)
          · exact found previous member ((overlaps_iff whole (valid previous member)).mpr meet)
          · rw [← List.find?_eq_none] at found
            unfold resolve at found
            rw [found]
            rfl

/-- Both addresses are integer literals. -/
structure Literal (table : DigitTable) (item : Object) (start stop : ℤ) : Prop where
  start : address table item "start" = .ok start
  stop : address table item "end" = .ok stop

/-- A list of objects whose addresses are literals is taken exactly when its regions are valid and
apart; otherwise the tool stops. -/
theorem loadItems_objects {items : List Object} {resolved : List Region}
    (each : List.Forall₂ (fun item region => ∃ start stop, Literal table item start stop ∧
      region = resolve dso symbol item start stop) items resolved) (before : Accepted regions) :
    (Accepted (regions ++ resolved) ∧
      loadItems table dso symbol regions (items.map .object) = .ok (regions ++ resolved)) ∨
    (¬ Accepted (regions ++ resolved) ∧
      ∃ message, loadItems table dso symbol regions (items.map .object) = .error (.tool message)) := by
  induction each generalizing regions with
  | nil =>
      rw [List.append_nil]
      exact .inl ⟨before, rfl⟩
  | @cons item region items resolved here _ ih =>
      obtain ⟨start, stop, literal, rfl⟩ := here
      have next : regions ++ resolve dso symbol item start stop :: resolved =
          (regions ++ [resolve dso symbol item start stop]) ++ resolved := by simp
      rw [List.map_cons, loadItems]
      rcases loadItem_object literal.start literal.stop before.valid with
        ⟨valid, apart, taken⟩ | ⟨bad, message, stopped⟩
      · rw [taken, next]
        exact ih (before.append valid apart)
      · rw [stopped]
        refine .inr ⟨fun h => bad ⟨h.valid _ (by simp), fun previous member => ?_⟩, message, rfl⟩
        exact (List.pairwise_append.mp h.apart).2.2 previous member _ List.mem_cons_self

theorem loadItem_ok {names : List Text} {item : Item} {region : Region}
    (taken : loadItem table dso symbol regions names item = .ok region) :
    ∃ object start stop, item = .object object ∧ Literal table object start stop := by
  cases item with
  | other repr => cases taken
  | object object =>
      unfold loadItem at taken
      dsimp only at taken
      split_ifs at taken
      cases first : address table object "start" with
      | error e =>
          rw [first] at taken
          cases taken
      | ok start =>
          cases last : address table object "end" with
          | error e =>
              rw [first, last] at taken
              cases taken
          | ok stop => exact ⟨object, start, stop, rfl, first, last⟩

theorem loadItems_ok {items : List Item} {result : List Region} (before : Accepted regions)
    (taken : loadItems table dso symbol regions items = .ok result) : Accepted result := by
  induction items generalizing regions with
  | nil =>
      cases taken
      exact before
  | cons item items ih =>
      rw [loadItems] at taken
      cases here : loadItem table dso symbol regions (regions.map Region.name) item with
      | error e =>
          rw [here] at taken
          cases taken
      | ok region =>
          rw [here] at taken
          obtain ⟨object, start, stop, rfl, literal⟩ := loadItem_ok here
          rcases loadItem_object literal.start literal.stop before.valid with
            ⟨valid, apart, same⟩ | ⟨_, message, stopped⟩
          · cases same.symm.trans here
            exact ih (before.append valid apart) taken
          · cases stopped.symm.trans here

theorem loadRegions_ok {file : Option (List (Text × Entry))} {kernel : Text} {result : List Region}
    (taken : loadRegions table file kernel = .ok result) : Accepted result := by
  have empty : Accepted [] := ⟨fun _ no => (List.not_mem_nil no).elim, .nil⟩
  unfold loadRegions at taken
  split at taken
  · cases taken
    exact empty
  · dsimp only at taken
    split at taken
    · cases taken
    · exact loadItems_ok empty taken

/-- What the tool stops at: a name that is empty or used twice, a missing selector, a range that
ends before its start, or an address in two regions of one selector. -/
def Rejected (regions : List Region) : Prop :=
  (∃ region ∈ regions, region.name = []) ∨ ¬ (regions.map Region.name).Nodup ∨
  (∃ region ∈ regions, region.dso = [] ∨ region.symbol = []) ∨
  (∃ region ∈ regions, region.end_int < region.start_int) ∨
  ¬ regions.Pairwise fun previous region => ¬ (previous.selector = region.selector ∧
    ∃ address, previous.Contains address ∧ region.Contains address)

theorem rejected_iff : Rejected regions ↔ ¬ Accepted regions := by
  constructor
  · rintro (⟨region, member, bad⟩ | twice | ⟨region, member, bad⟩ | ⟨region, member, bad⟩ | shared) h
    · exact (h.valid region member).name bad
    · exact twice (List.pairwise_map.mpr (h.apart.imp fun apart => apart.1))
    · exact bad.elim (h.valid region member).dso (h.valid region member).symbol
    · exact absurd (h.valid region member).range (Int.not_le.mpr bad)
    · exact shared (h.apart.imp fun apart => apart.2)
  · intro bad
    by_contra fine
    simp only [Rejected, not_or, not_exists, not_and, Classical.not_not] at fine
    obtain ⟨named, once, selected, ranges, disjoint⟩ := fine
    refine bad ⟨fun region member => ⟨named region member, (selected region member).1,
      (selected region member).2, Int.not_lt.mp (ranges region member)⟩, ?_⟩
    refine ((List.pairwise_map.mp once).and disjoint).imp ?_
    rintro previous region ⟨other, apart⟩
    exact ⟨other, fun ⟨same, address, shared⟩ => apart same address shared.1 shared.2⟩

theorem loadRegions_objects {data : List (Text × Entry)} {kernel : Text} {entry : Entry}
    (found : data.lookup kernel = some entry) {items : List Object} {resolved : List Region}
    (elements : entry.iterable = .elements (items.map .object))
    (each : List.Forall₂ (fun item region => ∃ start stop, Literal table item start stop ∧
      region = resolve (entry.selector "dso") (entry.selector "symbol") item start stop) items resolved) :
    (¬ Rejected resolved ∧ loadRegions table (some data) kernel = .ok resolved) ∨
    (Rejected resolved ∧
      ∃ message, loadRegions table (some data) kernel = .error (.tool message)) := by
  have empty : Accepted [] := ⟨fun _ no => (List.not_mem_nil no).elim, .nil⟩
  have run := loadItems_objects each empty
  rw [List.nil_append] at run
  unfold loadRegions
  dsimp only
  rw [found, Option.getD_some, elements, rejected_iff, Classical.not_not]
  exact run

end Accepted

end Pfng.Perf
