import Mathlib.Algebra.BigOperators.Group.List.Basic
import Mathlib.Algebra.Order.BigOperators.Group.List
import Mathlib.Data.Multiset.Basic
import Mathlib.Tactic.Positivity
import Pfng.Perf.Annotate

/-! The rows of a text and the regions that they belong to, said without the state of the parser: a
section is a header with the lines up to the next one, and its symbol is the first one in it. -/
namespace Pfng.Perf

section Rows

structure Row where
  dso : Text
  symbol : Text
  percent : ℚ
  address : ℕ

def Row.In (row : Row) (region : Region) : Prop :=
  row.dso = region.dso ∧ row.symbol = region.symbol ∧ region.Contains row.address

instance (row : Row) (region : Region) : Decidable (row.In region) :=
  inferInstanceAs (Decidable (_ ∧ _))

def Row.selector (row : Row) : Text × Text := (row.dso, row.symbol)

def share (rows : List Row) (region : Region) : ℚ := ((rows.filter (·.In region)).map Row.percent).sum

def Line.symbol? : Line → Option Text
  | .symbol name => some name
  | _ => none

def Line.instruction? : Line → Option (ℚ × ℕ)
  | .instruction percent address => some (percent, address)
  | _ => none

/-- A header and the lines up to the next one. -/
structure Block where
  dso : Text
  body : List Line

/-- The lines before the first header, and the blocks. -/
def blocksOf : List Line → List Line × List Block
  | [] => ([], [])
  | .header dso :: lines => ([], ⟨dso, (blocksOf lines).1⟩ :: (blocksOf lines).2)
  | line :: lines => (line :: (blocksOf lines).1, (blocksOf lines).2)

namespace Block

def symbol (block : Block) : Option Text := block.body.findSome? Line.symbol?

/-- The instructions among `lines`, as rows of the block. -/
def rowsAmong (block : Block) (lines : List Line) : List Row :=
  match block.symbol with
  | none => []
  | some symbol => (lines.filterMap Line.instruction?).map fun (percent, address) =>
      ⟨block.dso, symbol, percent, address⟩

def rows (block : Block) : List Row := block.rowsAmong block.body

def rowsAfterSymbol (block : Block) : List Row :=
  block.rowsAmong (block.body.dropWhile (·.symbol?.isNone))

end Block

def rows (lines : List Line) : List Row := (blocksOf lines).2.flatMap Block.rows

def rowsAfterSymbol (lines : List Line) : List Row := (blocksOf lines).2.flatMap Block.rowsAfterSymbol

theorem share_append (first later : List Row) (region : Region) :
    share (first ++ later) region = share first region + share later region := by
  rw [share, List.filter_append, List.map_append, List.sum_append]
  rfl

theorem share_nil (region : Region) : share [] region = 0 := rfl

end Rows

section Trace

/-- The section after a line, and the row that the line makes in a section. -/
def nextSection : Option Section → Line → Option Section
  | _, .header dso => some ⟨dso, none⟩
  | some ⟨dso, none⟩, .symbol name => some ⟨dso, some name⟩
  | current, _ => current

def rowOf : Option Section → Line → Option Row
  | some ⟨dso, some symbol⟩, .instruction percent address => some ⟨dso, symbol, percent, address⟩
  | _, _ => none

def rowsFrom : Option Section → List Line → List Row
  | _, [] => []
  | current, line :: lines => (rowOf current line).toList ++ rowsFrom (nextSection current line) lines

def sectionsFrom : Option Section → List Line → List Section
  | current, [] => current.toList
  | current, .header dso :: lines => current.toList ++ sectionsFrom (some ⟨dso, none⟩) lines
  | current, line :: lines => sectionsFrom (nextSection current line) lines

/-- The rows that the parser makes are those after the symbol of their block. -/
theorem rowsFrom_blocks (lines : List Line) :
    rowsFrom none lines = rowsAfterSymbol lines ∧
    (∀ dso, rowsFrom (some ⟨dso, none⟩) lines =
      Block.rowsAfterSymbol ⟨dso, (blocksOf lines).1⟩ ++ rowsAfterSymbol lines) ∧
    ∀ dso symbol, rowsFrom (some ⟨dso, some symbol⟩) lines =
      (((blocksOf lines).1.filterMap Line.instruction?).map fun (percent, address) =>
        ⟨dso, symbol, percent, address⟩) ++ rowsAfterSymbol lines := by
  induction lines with
  | nil => exact ⟨rfl, fun _ => rfl, fun _ _ => rfl⟩
  | cons line lines ih =>
      obtain ⟨before, unnamed, known⟩ := ih
      cases line with
      | header dso =>
          have here : rowsFrom (some ⟨dso, none⟩) lines = rowsAfterSymbol (.header dso :: lines) := unnamed dso
          exact ⟨here, fun _ => here, fun _ _ => here⟩
      | symbol name =>
          refine ⟨before, fun dso => ?_, known⟩
          exact known dso name
      | instruction percent address =>
          refine ⟨before, unnamed, fun dso symbol => ?_⟩
          exact congrArg (_ :: ·) (known dso symbol)
      | other => exact ⟨before, unnamed, known⟩

theorem sectionsFrom_blocks (lines : List Line) :
    sectionsFrom none lines = (blocksOf lines).2.map (fun block => ⟨block.dso, block.symbol⟩) ∧
    (∀ dso, sectionsFrom (some ⟨dso, none⟩) lines =
      ⟨dso, (blocksOf lines).1.findSome? Line.symbol?⟩ ::
        (blocksOf lines).2.map fun block => ⟨block.dso, block.symbol⟩) ∧
    ∀ dso symbol, sectionsFrom (some ⟨dso, some symbol⟩) lines =
      ⟨dso, some symbol⟩ :: (blocksOf lines).2.map fun block => ⟨block.dso, block.symbol⟩ := by
  induction lines with
  | nil => exact ⟨rfl, fun _ => rfl, fun _ _ => rfl⟩
  | cons line lines ih =>
      obtain ⟨before, unnamed, known⟩ := ih
      cases line with
      | header dso =>
          exact ⟨unnamed dso, fun dso' => congrArg (_ :: ·) (unnamed dso),
            fun dso' symbol => congrArg (_ :: ·) (unnamed dso)⟩
      | symbol name => exact ⟨before, fun dso => known dso name, known⟩
      | instruction percent address => exact ⟨before, unnamed, known⟩
      | other => exact ⟨before, unnamed, known⟩

end Trace

section Regions

variable {regions : List Region}

theorem Row.takes_iff {row : Row} {region : Region} :
    takes row.dso row.symbol row.address region ↔ row.In region := decide_eq_true_iff

theorem Accepted.unique (h : Accepted regions) {row : Row} {region region' : Region}
    (member : region ∈ regions) (member' : region' ∈ regions) (here : row.In region)
    (there : row.In region') : region = region' := by
  have same : region.selector = region'.selector := by
    rw [Region.selector, Region.selector, ← here.1, ← here.2.1, there.1, there.2.1]
  by_contra other
  exact (h.apart.forall member member' other).2 ⟨same, row.address, here.2.2, there.2.2⟩

theorem Accepted.name_eq (h : Accepted regions) {region region' : Region} (member : region ∈ regions)
    (member' : region' ∈ regions) : region.name = region'.name ↔ region = region' :=
  ⟨fun same => List.inj_on_of_nodup_map h.names_nodup member member' same, congrArg _⟩

end Regions

section Parser

variable {regions : List Region} {v : Region → ℚ} {state : State}

/-- The values of the regions, in the order of the list. -/
structure Shares (regions : List Region) (v : Region → ℚ) (values : List (Text × ℚ)) : Prop where
  keys : Dict.keys values = regions.map Region.name
  value : ∀ region ∈ regions, Dict.get? values region.name = some (v region)

theorem Shares.eq (once : (regions.map Region.name).Nodup) {values : List (Text × ℚ)}
    (h : Shares regions v values) : values = regions.map fun region => (region.name, v region) := by
  refine (Dict.eq_map_keys (by rwa [h.keys]) 0).trans ?_
  rw [h.keys, List.map_map]
  refine List.map_congr_left fun region member => ?_
  rw [Function.comp_apply, h.value region member, Option.getD_some]

theorem Shares.add (accepted : Accepted regions) {values : List (Text × ℚ)} (h : Shares regions v values)
    {row : Row} {region : Region} (member : region ∈ regions) (here : row.In region) :
    Shares regions (fun r => v r + share [row] r)
      (Dict.update region.name (fun x => x.getD 0 + row.percent) values) := by
  refine ⟨?_, fun r other => ?_⟩
  · rw [Dict.keys_update_of_mem, h.keys]
    rw [h.keys]
    exact List.mem_map_of_mem member
  · rw [Dict.get?_update, h.value r other, h.value region member]
    by_cases same : r = region
    · subst same
      simp [share, here]
    · have apart : ¬ row.In r := fun there => same (accepted.unique other member there here)
      rw [if_neg (mt (accepted.name_eq other member).mp same)]
      simp [share, apart]

theorem addInstruction_spec (accepted : Accepted regions) (h : Shares regions v state.values) (row : Row)
    (positive : 0 ≤ row.percent) (n : ℕ) :
    Shares regions (fun r => v r + share [row] r)
        (addInstruction regions n row.dso row.symbol row.percent row.address state).values ∧
      (addInstruction regions n row.dso row.symbol row.percent row.address state).diagnostics =
        state.diagnostics ∧
      (addInstruction regions n row.dso row.symbol row.percent row.address state).sections =
        state.sections ∧
      (addInstruction regions n row.dso row.symbol row.percent row.address state).current =
        state.current := by
  unfold addInstruction
  rw [if_neg (not_lt.mpr positive)]
  cases found : regions.find? (takes row.dso row.symbol row.address) with
  | some region =>
      have here := Row.takes_iff.mp (List.find?_some (p := takes row.dso row.symbol row.address) found)
      exact ⟨h.add accepted (List.mem_of_find?_eq_some found) here, rfl, rfl, rfl⟩
  | none =>
      rw [List.find?_eq_none] at found
      refine ⟨⟨h.keys, fun r member => ?_⟩, rfl, rfl, rfl⟩
      have apart : ¬ row.In r := fun there => found r member (Row.takes_iff.mpr there)
      rw [h.value r member]
      simp [share, apart]

/-- No line has a negative percentage. -/
def Line.Positive : Line → Prop
  | .instruction percent _ => 0 ≤ percent
  | _ => True

theorem step_spec (accepted : Accepted regions) (h : Shares regions v state.values) {line : Line}
    (positive : line.Positive) (n : ℕ) :
    Shares regions (fun r => v r + share (rowOf state.current line).toList r)
        (step regions state (line, n)).values ∧
      (step regions state (line, n)).diagnostics = state.diagnostics ∧
      (step regions state (line, n)).current = nextSection state.current line ∧
      ∀ lines, (step regions state (line, n)).sections ++ sectionsFrom (nextSection state.current line) lines =
        state.sections ++ sectionsFrom state.current (line :: lines) := by
  have same : Shares regions (fun r => v r + share [] r) state.values := by
    simpa only [share_nil, add_zero] using h
  obtain ⟨values, diagnostics, sections, current⟩ := state
  rcases current with _ | ⟨dso, _ | symbol⟩
  · cases line with
    | header dso' => exact ⟨same, rfl, rfl, fun _ => List.append_assoc _ _ _⟩
    | symbol name => exact ⟨same, rfl, rfl, fun _ => rfl⟩
    | instruction percent address => exact ⟨same, rfl, rfl, fun _ => rfl⟩
    | other => exact ⟨same, rfl, rfl, fun _ => rfl⟩
  · cases line with
    | header dso' => exact ⟨same, rfl, rfl, fun _ => List.append_assoc _ _ _⟩
    | symbol name => exact ⟨same, rfl, rfl, fun _ => rfl⟩
    | instruction percent address => exact ⟨same, rfl, rfl, fun _ => rfl⟩
    | other => exact ⟨same, rfl, rfl, fun _ => rfl⟩
  · cases line with
    | header dso' => exact ⟨same, rfl, rfl, fun _ => List.append_assoc _ _ _⟩
    | symbol name => exact ⟨same, rfl, rfl, fun _ => rfl⟩
    | instruction percent address =>
        obtain ⟨sums, said, earlier, now⟩ := addInstruction_spec accepted h
          ⟨dso, symbol, percent, address⟩ positive n
        exact ⟨sums, said, now, fun lines => congrArg (· ++ _) earlier⟩
    | other => exact ⟨same, rfl, rfl, fun _ => rfl⟩

/-- All lines: the values are the shares of the rows, nothing is said of a line, and the sections are
those of the text. -/
theorem run_spec (accepted : Accepted regions) {lines : List Line} (positive : ∀ line ∈ lines, line.Positive)
    (n : ℕ) (h : Shares regions v state.values) :
    Shares regions (fun r => v r + share (rowsFrom state.current lines) r)
        ((lines.zipIdx n).foldl (step regions) state).values ∧
      ((lines.zipIdx n).foldl (step regions) state).diagnostics = state.diagnostics ∧
      ((lines.zipIdx n).foldl (step regions) state).sections ++
        ((lines.zipIdx n).foldl (step regions) state).current.toList =
        state.sections ++ sectionsFrom state.current lines := by
  induction lines generalizing state n v with
  | nil =>
      have same : Shares regions (fun r => v r + share [] r) state.values := by
        simpa only [share_nil, add_zero] using h
      refine ⟨same, rfl, ?_⟩
      · obtain ⟨values, diagnostics, sections, current⟩ := state
        cases current <;> rfl
  | cons line lines ih =>
      obtain ⟨here, later⟩ := List.forall_mem_cons.mp positive
      obtain ⟨sums, said, now, split⟩ := step_spec accepted h here n
      obtain ⟨all, rest, final⟩ := ih later (n + 1) sums
      rw [List.zipIdx_cons, List.foldl_cons]
      refine ⟨?_, rest.trans said, ?_⟩
      · rw [now] at all
        simpa only [rowsFrom, share_append, add_assoc] using all
      · rw [final, now, split]

end Parser

section Result

variable {table : DigitTable} {regions regions' : List Region}

theorem exactDecimal_nonneg (text : Text) : 0 ≤ exactDecimal table text := by
  unfold exactDecimal
  positivity

theorem annotateLines_positive (text : Text) : ∀ line ∈ annotateLines table text, line.Positive := by
  intro line member
  obtain ⟨text, _, rfl⟩ := List.mem_map.mp member
  unfold classify
  split
  · trivial
  · split
    · trivial
    · split
      · exact exactDecimal_nonneg _
      · trivial

theorem initial_shares (once : (regions.map Region.name).Nodup) :
    Shares regions (fun _ => 0) (initialState regions).values := by
  refine ⟨?_, fun region member => ?_⟩
  · unfold initialState
    rw [Dict.keys_collect_of_nodup (fun _ _ no => (List.not_mem_nil no).elim) once]
    rfl
  · have zero : ∀ order : List Region, order.foldl (fun _ _ => some (0 : ℚ)) (some 0) = some 0 := by
      intro order
      induction order with
      | nil => rfl
      | cons r order ih => exact ih
    have own : region ∈ regions.filter (·.name = region.name) :=
      List.mem_filter.mpr ⟨member, decide_eq_true rfl⟩
    obtain ⟨first, rest, split⟩ := List.exists_cons_of_ne_nil (List.ne_nil_of_mem own)
    unfold initialState
    rw [Dict.get?_collect, split]
    exact zero rest

variable (table) in
def sectionsOf (text : Text) : List Section :=
  (blocksOf (annotateLines table text)).2.map fun block => ⟨block.dso, block.symbol⟩

variable (table) in
theorem parse_spec (accepted : Accepted regions) (text : Text) :
    Shares regions (share (rowsAfterSymbol (annotateLines table text)))
      (parseAnnotateRegions table (some text) regions).1 ∧
    (parseAnnotateRegions table (some text) regions).2 =
      regions.flatMap (regionDiagnostics (sectionsOf table text)
        (parseAnnotateRegions table (some text) regions).1) ++
      selectorDiagnostics (parseAnnotateRegions table (some text) regions).1 regions := by
  have positive : ∀ line ∈ annotateLines table text, line.Positive := annotateLines_positive text
  obtain ⟨sums, said, sections⟩ := run_spec accepted positive 1 (initial_shares accepted.names_nodup)
  have rows : (fun r => 0 + share (rowsFrom (initialState regions).current (annotateLines table text)) r) =
      share (rowsAfterSymbol (annotateLines table text)) := by
    funext r
    rw [zero_add]
    exact congrArg (share · r) (rowsFrom_blocks _).1
  rw [rows] at sums
  refine ⟨sums, ?_⟩
  have all := sections.trans (sectionsFrom_blocks (annotateLines table text)).1
  unfold parseAnnotateRegions sectionsOf
  dsimp only
  rw [said, all]
  rfl

end Result

section Diagnostics

/-- A diagnostic with its names in another form. -/
def Diagnostic.map {N N' : Type} (f : N → N') : Diagnostic N → Diagnostic N'
  | .missing => .missing
  | .invalid line_number percent => .invalid line_number percent
  | .unmatched name dso symbol => .unmatched name dso symbol
  | .matched name sections dso symbol => .matched name sections dso symbol
  | .exceeds name percent => .exceeds name percent
  | .sum names dso symbol total => .sum (f names) dso symbol total

def Diagnostic.unordered : Diagnostic (List Text) → Diagnostic (Multiset Text) := Diagnostic.map (↑·)

variable {regions regions' : List Region} {v : Region → ℚ} {values : List (Text × ℚ)}

def ofSelector (regions : List Region) (selector : Text × Text) : List Region :=
  regions.filter (·.selector = selector)

def selectorDiagnostic (v : Region → ℚ) (regions : List Region) (selector : Text × Text) :
    List (Diagnostic (List Text)) :=
  if 1 < (ofSelector regions selector).length ∧
      100 + PERCENT_TOLERANCE < ((ofSelector regions selector).map v).sum then
    [.sum ((ofSelector regions selector).map Region.name) selector.1 selector.2
      ((ofSelector regions selector).map v).sum]
  else []

theorem selectorTotals_nodup : (Dict.keys (selectorTotals values regions)).Nodup :=
  Dict.keys_collect_nodup (d := []) List.nodup_nil

theorem mem_selectorTotals {selector : Text × Text} :
    selector ∈ Dict.keys (selectorTotals values regions) ↔
      ∃ region ∈ regions, region.selector = selector := by
  refine Dict.mem_keys_collect.trans ⟨fun member => ?_, .inr⟩
  exact member.resolve_left List.not_mem_nil

theorem selectorTotals_get (known : ∀ region ∈ regions, Dict.get? values region.name = some (v region))
    (selector : Text × Text) : (Dict.get? (selectorTotals values regions) selector).getD 0 =
      ((ofSelector regions selector).map v).sum := by
  have sums : ∀ (order : List Region), (∀ region ∈ order, region ∈ regions) → ∀ x : Option ℚ,
      (order.foldl (fun x region => some (x.getD 0 + (Dict.get? values region.name).getD 0)) x).getD 0 =
        x.getD 0 + (order.map v).sum := by
    intro order
    induction order with
    | nil => exact fun _ x => (add_zero _).symm
    | cons region order ih =>
        intro inside x
        obtain ⟨here, later⟩ := List.forall_mem_cons.mp inside
        rw [List.foldl_cons, ih later, known region here, List.map_cons, List.sum_cons, ← add_assoc]
        rfl
  rw [selectorTotals, Dict.get?_collect, sums _ fun region member => (List.mem_filter.mp member).1]
  exact zero_add _

theorem selectorNames_get (selector : Text × Text) :
    (Dict.get? (selectorNames regions) selector).getD [] =
      (ofSelector regions selector).map Region.name := by
  have names : ∀ (order : List Region) (x : Option (List Text)),
      (order.foldl (fun x region => some (x.getD [] ++ [region.name])) x).getD [] =
        x.getD [] ++ order.map Region.name := by
    intro order
    induction order with
    | nil => exact fun x => (List.append_nil _).symm
    | cons region order ih =>
        intro x
        rw [List.foldl_cons, ih, List.map_cons, Option.getD_some, List.append_assoc]
        rfl
  rw [selectorNames, Dict.get?_collect, names]
  rfl

theorem selectorDiagnostics_eq
    (known : ∀ region ∈ regions, Dict.get? values region.name = some (v region)) :
    selectorDiagnostics values regions =
      (Dict.keys (selectorTotals values regions)).flatMap (selectorDiagnostic v regions) := by
  refine (congrArg (List.flatMap _) (Dict.eq_map_keys selectorTotals_nodup 0)).trans ?_
  rw [List.flatMap_map]
  refine List.flatMap_congr fun selector _ => ?_
  dsimp only
  rw [selectorTotals_get known, selectorNames_get, List.length_map]
  rfl

/-- Without the order of the names, the diagnostics of two orders of the regions are the same ones. -/
theorem selectorDiagnostics_perm {values' : List (Text × ℚ)} (same : regions'.Perm regions)
    (known : ∀ region ∈ regions, Dict.get? values region.name = some (v region))
    (known' : ∀ region ∈ regions', Dict.get? values' region.name = some (v region)) :
    ((selectorDiagnostics values' regions').map Diagnostic.unordered).Perm
      ((selectorDiagnostics values regions).map Diagnostic.unordered) := by
  have keys : (Dict.keys (selectorTotals values' regions')).Perm
      (Dict.keys (selectorTotals values regions)) := by
    refine (List.perm_ext_iff_of_nodup selectorTotals_nodup selectorTotals_nodup).mpr fun selector => ?_
    rw [mem_selectorTotals, mem_selectorTotals]
    simp only [same.mem_iff]
  have each : ∀ selector, (selectorDiagnostic v regions' selector).map Diagnostic.unordered =
      (selectorDiagnostic v regions selector).map Diagnostic.unordered := by
    intro selector
    have members : (ofSelector regions' selector).Perm (ofSelector regions selector) := same.filter _
    have names : (((ofSelector regions' selector).map Region.name : List Text) : Multiset Text) =
        ((ofSelector regions selector).map Region.name : List Text) :=
      Multiset.coe_eq_coe.mpr (members.map _)
    unfold selectorDiagnostic
    rw [members.length_eq, (members.map v).sum_eq]
    split
    · exact congrArg (fun n => [Diagnostic.sum n _ _ _]) names
    · rfl
  rw [selectorDiagnostics_eq known, selectorDiagnostics_eq known', List.map_flatMap, List.map_flatMap]
  simp only [each]
  exact keys.flatMap_right _

theorem regionDiagnostics_perm {values' : List (Text × ℚ)} (sections : List Section)
    (same : regions'.Perm regions)
    (known : ∀ region ∈ regions, Dict.get? values region.name = some (v region))
    (known' : ∀ region ∈ regions', Dict.get? values' region.name = some (v region)) :
    (regions'.flatMap (regionDiagnostics sections values')).Perm
      (regions.flatMap (regionDiagnostics sections values)) := by
  refine same.flatMap fun region member => ?_
  rw [regionDiagnostics, regionDiagnostics, known region (same.mem_iff.mp member), known' region member]

end Diagnostics

section Bound

variable {regions : List Region}

theorem share_singleton (row : Row) (region : Region) :
    share [row] region = if row.In region then row.percent else 0 := by
  by_cases here : row.In region <;> simp [share, here]

/-- A row lies in at most one region of a selector, and in none of another one. -/
theorem shares_le_row (accepted : Accepted regions) (selector : Text × Text) {row : Row}
    (positive : 0 ≤ row.percent) : ((ofSelector regions selector).map (share [row])).sum ≤
      if row.selector = selector then row.percent else 0 := by
  have bound : 0 ≤ if row.selector = selector then row.percent else 0 := by
    split
    · exact positive
    · exact le_refl 0
  by_cases found : ∃ region ∈ ofSelector regions selector, row.In region
  · obtain ⟨region, member, here⟩ := found
    obtain ⟨inList, same⟩ := List.mem_filter.mp member
    obtain ⟨before, after, split⟩ := List.append_of_mem member
    have once : (before ++ region :: after).Nodup := by
      rw [← split]
      exact (List.Nodup.of_map _ accepted.names_nodup).filter _
    have others : ∀ r ∈ before ++ after, share [row] r = 0 := by
      intro r other
      rw [share_singleton, if_neg]
      intro there
      have inRegions : r ∈ ofSelector regions selector := by
        rw [split]
        simp only [List.mem_append, List.mem_cons] at other ⊢
        tauto
      have equal := accepted.unique (List.mem_filter.mp inRegions).1 inList there here
      subst equal
      exact (List.nodup_middle.mp once).notMem other
    have own : row.selector = selector := by
      rw [← of_decide_eq_true same, Row.selector, Region.selector, here.1, here.2.1]
    have total : ((ofSelector regions selector).map (share [row])).sum = row.percent := by
      have rest : ((before ++ after).map (share [row])).sum = 0 := by
        refine List.sum_eq_zero fun x member => ?_
        obtain ⟨r, other, rfl⟩ := List.mem_map.mp member
        exact others r other
      rw [split, (List.perm_middle.map _).sum_eq, List.map_cons, List.sum_cons, rest, add_zero,
        share_singleton, if_pos here]
    rw [total, if_pos own]
  · have none : ((ofSelector regions selector).map (share [row])).sum = 0 := by
      refine List.sum_eq_zero fun x member => ?_
      obtain ⟨region, other, rfl⟩ := List.mem_map.mp member
      rw [share_singleton, if_neg fun here => found ⟨region, other, here⟩]
    rw [none]
    exact bound

theorem shares_le (accepted : Accepted regions) (selector : Text × Text) {rows : List Row}
    (positive : ∀ row ∈ rows, 0 ≤ row.percent) : ((ofSelector regions selector).map (share rows)).sum ≤
      ((rows.filter (·.selector = selector)).map Row.percent).sum := by
  induction rows with
  | nil =>
      refine le_of_eq (List.sum_eq_zero fun x member => ?_)
      obtain ⟨region, _, rfl⟩ := List.mem_map.mp member
      rfl
  | cons row rows ih =>
      obtain ⟨here, later⟩ := List.forall_mem_cons.mp positive
      have split : share (row :: rows) = fun region => share [row] region + share rows region :=
        funext fun region => share_append [row] rows region
      have first := shares_le_row accepted selector here
      have rest := ih later
      rw [split, List.sum_map_add, List.filter_cons]
      by_cases own : row.selector = selector
      · rw [if_pos own] at first
        rw [if_pos (decide_eq_true own), List.map_cons, List.sum_cons]
        exact add_le_add first rest
      · rw [if_neg own] at first
        rw [if_neg (by simpa using own)]
        exact (add_le_add first rest).trans (zero_add _).le

theorem rowsFrom_positive {lines : List Line} (positive : ∀ line ∈ lines, line.Positive)
    (current : Option Section) : ∀ row ∈ rowsFrom current lines, 0 ≤ row.percent := by
  induction lines generalizing current with
  | nil => exact fun _ no => (List.not_mem_nil no).elim
  | cons line lines ih =>
      obtain ⟨here, later⟩ := List.forall_mem_cons.mp positive
      intro row member
      rcases List.mem_append.mp member with own | other
      · unfold rowOf at own
        split at own
        · rw [Option.toList_some, List.mem_singleton] at own
          rw [own]
          exact here
        · exact (List.not_mem_nil own).elim
      · exact ih later _ row other

end Bound

section Attributed

/-- Profile attribution: the value of a region is the sum of its rows after the symbols of their
sections, a row has one region at most, the order of the regions does not matter, and the regions of
a selector take no more than its rows have. A list of objects with literal addresses is rejected
exactly for the reasons of `Rejected`. -/
theorem region_attribution (table : DigitTable) :
    (∀ (file : Option (List (Text × Entry))) (kernel : Text) (regions : List Region),
      loadRegions table file kernel = .ok regions → ∀ text : Text,
      (parseAnnotateRegions table (some text) regions).1 = regions.map (fun region =>
        (region.name, share (rowsAfterSymbol (annotateLines table text)) region)) ∧
      (∀ row : Row, ∀ region ∈ regions, ∀ region' ∈ regions,
        row.In region → row.In region' → region = region') ∧
      (∀ regions' : List Region, regions'.Perm regions →
        (parseAnnotateRegions table (some text) regions').1.Perm
          (parseAnnotateRegions table (some text) regions).1 ∧
        ((parseAnnotateRegions table (some text) regions').2.map Diagnostic.unordered).Perm
          ((parseAnnotateRegions table (some text) regions).2.map Diagnostic.unordered)) ∧
      ∀ selector : Text × Text,
        ((ofSelector regions selector).map (share (rowsAfterSymbol (annotateLines table text)))).sum ≤
          (((rowsAfterSymbol (annotateLines table text)).filter (·.selector = selector)).map
            Row.percent).sum) ∧
    ∀ (data : List (Text × Entry)) (kernel : Text) (entry : Entry) (items : List Object)
      (resolved : List Region), data.lookup kernel = some entry →
      entry.iterable = .elements (items.map .object) →
      List.Forall₂ (fun item region => ∃ start stop, Literal table item start stop ∧
        region = resolve (entry.selector "dso") (entry.selector "symbol") item start stop)
        items resolved →
      ((∃ message, loadRegions table (some data) kernel = .error (.tool message)) ↔ Rejected resolved) ∧
      (¬ Rejected resolved → loadRegions table (some data) kernel = .ok resolved) := by
  constructor
  · intro file kernel regions taken text
    have accepted := loadRegions_ok taken
    obtain ⟨sums, said⟩ := parse_spec table accepted text
    refine ⟨sums.eq accepted.names_nodup, fun row region member region' member' => accepted.unique member
      member', fun regions' same => ?_, fun selector => ?_⟩
    · have accepted' := accepted.perm same
      obtain ⟨sums', said'⟩ := parse_spec table accepted' text
      constructor
      · rw [sums.eq accepted.names_nodup, sums'.eq accepted'.names_nodup]
        exact same.map _
      · rw [said, said', List.map_append, List.map_append]
        exact ((regionDiagnostics_perm _ same sums.value sums'.value).map _).append
          (selectorDiagnostics_perm same sums.value sums'.value)
    · refine shares_le accepted selector ?_
      rw [← (rowsFrom_blocks _).1]
      exact rowsFrom_positive (annotateLines_positive text) none
  · intro data kernel entry items resolved found elements each
    rcases loadRegions_objects found elements each with ⟨fine, taken⟩ | ⟨bad, stopped⟩
    · refine ⟨⟨fun ⟨message, stopped⟩ => ?_, fun bad => absurd bad fine⟩, fun _ => taken⟩
      cases taken.symm.trans stopped
    · exact ⟨⟨fun _ => bad, fun _ => stopped⟩, fun fine => absurd bad fine⟩

end Attributed

section Sample

/-- Two regions of the symbol `f`, with the selectors of the whole entry. -/
def sampleItems : List Object :=
  [[("name", .string ['p']), ("start", .string "0x10".toList), ("end", .int 31)],
    [("name", .string ['q']), ("start", .int 32), ("end", .string "0x2f".toList)]]

def sampleEntry : Entry :=
  .dict [("dso", .string ['a']), ("symbol", .string ['f'])] (some (.elements (sampleItems.map .object)))

def sampleRegions : List Region :=
  [⟨sampleItems[0], ['p'], ['a'], ['f'], 16, 31⟩, ⟨sampleItems[1], ['q'], ['a'], ['f'], 32, 47⟩]

def sampleHeader : Text :=
  " Percent | Source code & Disassembly of a for c (1 samples, percent: l)\n".toList

def sampleText : Text := sampleHeader ++ "1.5 : 1f: x\n : 6 0 <f>:\n35.60 : 1F: x\n.25 : 20: x\n".toList

theorem sample_region_attribution :
    (parseAnnotateRegions asciiDigits (some sampleText) sampleRegions).1 =
      [(['p'], 178 / 5), (['q'], 1 / 4)] ∧
    ¬ Rejected sampleRegions := by
  have taken : loadRegions asciiDigits (some [(['k'], sampleEntry)]) ['k'] = .ok sampleRegions := by
    decide +kernel
  have both := region_attribution asciiDigits
  constructor
  · refine ((both.1 (some [(['k'], sampleEntry)]) ['k'] sampleRegions taken sampleText).1).trans ?_
    decide +kernel
  · intro bad
    have each : List.Forall₂ (fun item region => ∃ start stop, Literal asciiDigits item start stop ∧
        region = resolve (sampleEntry.selector "dso") (sampleEntry.selector "symbol") item start stop)
        sampleItems sampleRegions :=
      .cons ⟨16, 31, ⟨by decide +kernel, by decide +kernel⟩, by decide +kernel⟩
        (.cons ⟨32, 47, ⟨by decide +kernel, by decide +kernel⟩, by decide +kernel⟩ .nil)
    obtain ⟨message, stopped⟩ := (both.2 [(['k'], sampleEntry)] ['k'] sampleEntry sampleItems sampleRegions
      rfl rfl each).1.mpr bad
    cases taken.symm.trans stopped

/-- The row before the symbol is in the section, but counts for no region. -/
theorem row_before_symbol :
    loadRegions asciiDigits (some [(['k'], sampleEntry)]) ['k'] = .ok sampleRegions ∧
    (parseAnnotateRegions asciiDigits (some sampleText) sampleRegions).1 ≠ sampleRegions.map fun region =>
      (region.name, share (rows (annotateLines asciiDigits sampleText)) region) := by
  decide +kernel

end Sample

end Pfng.Perf
