import Mathlib.Data.List.GetD
import Pfng.Bench.Run
import Pfng.Lib.Numerals
import Pfng.Lib.Program

/-! The arguments of `main` that are parsed: sizes, perf events and lists of them. A text is the list
of its characters, without the final NUL. -/
namespace Pfng.Bench
open Numerals Checked

/-- `parse_size`; `none` is `false`. -/
def parseSize (text : List Char) : Option ℕ :=
  let parsed := strtoull text 10
  if parsed.rangeError ∨ parsed.consumed = 0 ∨ text.getD parsed.consumed '\x00' ≠ '\x00' ∨
      parsed.value = 0 ∨ 2 ^ 64 - 1 < parsed.value then none
  else some parsed.value

section Events

def PERF_TYPE_HARDWARE : ℕ := 0
def PERF_TYPE_SOFTWARE : ℕ := 1
def PERF_TYPE_HW_CACHE : ℕ := 3
def PERF_TYPE_RAW : ℕ := 4
def PERF_COUNT_HW_INSTRUCTIONS : ℕ := 1
def PERF_COUNT_SW_TASK_CLOCK : ℕ := 1
def PERF_COUNT_SW_PAGE_FAULTS : ℕ := 2
def PERF_COUNT_HW_CACHE_L1D : ℕ := 0
def PERF_COUNT_HW_CACHE_LL : ℕ := 2
def PERF_COUNT_HW_CACHE_DTLB : ℕ := 3
def PERF_COUNT_HW_CACHE_OP_READ : ℕ := 0
def PERF_COUNT_HW_CACHE_RESULT_ACCESS : ℕ := 0
def PERF_COUNT_HW_CACHE_RESULT_MISS : ℕ := 1

def cache (cache_id result : ℕ) : ℕ :=
  cache_id ||| PERF_COUNT_HW_CACHE_OP_READ <<< 8 ||| result <<< 16

/-- `text.find(c, start)`. -/
def find (text : List Char) (c : Char) (start : ℕ) : Option ℕ :=
  ((text.drop start).findIdx? (· == c)).map (start + ·)

/-- The branch of `parse_perf_event` for a text that starts with `raw:`. -/
def parseRawEvent (text : List Char) : Option PerfEventSpec :=
  (find text ':' 4).bind fun separator =>
  if separator = 4 ∨ separator + 1 = text.length then none
  else
    let config_text := text.drop (separator + 1)
    let config := strtoull config_text 0
    if config.rangeError ∨ config.consumed = 0 ∨ config_text.getD config.consumed '\x00' ≠ '\x00'
    then none
    else some ⟨String.ofList ((text.drop 4).take (separator - 4)), PERF_TYPE_RAW, config.value⟩

/-- `parse_perf_event`; `none` is `false`. -/
def parsePerfEvent (text : List Char) : Option PerfEventSpec :=
  if text = "cycles".toList then some cyclesEvent
  else if text = "instructions".toList then
    some ⟨"instructions", PERF_TYPE_HARDWARE, PERF_COUNT_HW_INSTRUCTIONS⟩
  else if text = "task-clock".toList then
    some ⟨"task-clock", PERF_TYPE_SOFTWARE, PERF_COUNT_SW_TASK_CLOCK⟩
  else if text = "page-faults".toList then
    some ⟨"page-faults", PERF_TYPE_SOFTWARE, PERF_COUNT_SW_PAGE_FAULTS⟩
  else if text = "dtlb-access".toList then
    some ⟨"dtlb-access", PERF_TYPE_HW_CACHE,
      cache PERF_COUNT_HW_CACHE_DTLB PERF_COUNT_HW_CACHE_RESULT_ACCESS⟩
  else if text = "dtlb-miss".toList then
    some ⟨"dtlb-miss", PERF_TYPE_HW_CACHE,
      cache PERF_COUNT_HW_CACHE_DTLB PERF_COUNT_HW_CACHE_RESULT_MISS⟩
  else if text = "l1d-access".toList then
    some ⟨"l1d-access", PERF_TYPE_HW_CACHE,
      cache PERF_COUNT_HW_CACHE_L1D PERF_COUNT_HW_CACHE_RESULT_ACCESS⟩
  else if text = "l1d-miss".toList then
    some ⟨"l1d-miss", PERF_TYPE_HW_CACHE,
      cache PERF_COUNT_HW_CACHE_L1D PERF_COUNT_HW_CACHE_RESULT_MISS⟩
  else if text = "llc-access".toList then
    some ⟨"llc-access", PERF_TYPE_HW_CACHE,
      cache PERF_COUNT_HW_CACHE_LL PERF_COUNT_HW_CACHE_RESULT_ACCESS⟩
  else if text = "llc-miss".toList then
    some ⟨"llc-miss", PERF_TYPE_HW_CACHE,
      cache PERF_COUNT_HW_CACHE_LL PERF_COUNT_HW_CACHE_RESULT_MISS⟩
  else if "raw:".toList.isPrefixOf text then parseRawEvent text
  else none

/-- `append_perf_events`: the result and the vector, also when it fails. -/
def appendPerfEvents (list : List Char) (events : List PerfEventSpec) : Bool × List PerfEventSpec :=
  if _empty : list = [] then (true, events)
  else
    let comma := find list ',' 0
    let token := list.take (comma.getD list.length)
    match if token = [] then none else parsePerfEvent token with
    | none => (false, events)
    | some event =>
        if events.any fun existing => existing.name == event.name then (false, events)
        else match comma with
          | none => (true, events ++ [event])
          | some comma => appendPerfEvents (list.drop (comma + 1)) (events ++ [event])
termination_by list.length
decreasing_by
  have pos := List.length_pos_of_ne_nil _empty
  rw [List.length_drop]
  omega

/-- What `main` keeps of the perf options: `perf_events_explicit` and `request.perf_events`. -/
structure PerfOptions where
  explicit : Bool
  events : List PerfEventSpec

def PerfOptions.start : PerfOptions := ⟨false, [cyclesEvent]⟩

/-- One `--perf-event` or `--perf-events` with its argument. -/
def PerfOptions.option (options : PerfOptions) (list : List Char) : Bool × PerfOptions :=
  let (accepted, events) := appendPerfEvents list (if options.explicit then options.events else [])
  (accepted, ⟨true, events⟩)

end Events

section Find

variable {text first rest : List Char} {c : Char} {start : ℕ}

theorem find_none (h : c ∉ text.drop start) : find text c start = none := by
  rw [find, List.findIdx?_eq_none_iff.mpr, Option.map_none]
  intro d hd
  rw [beq_eq_false_iff_ne]
  rintro rfl
  exact h hd

theorem find_some (split : text.drop start = first ++ c :: rest) (h : c ∉ first) :
    find text c start = some (start + first.length) := by
  have absent : first.findIdx? (· == c) = none := by
    rw [List.findIdx?_eq_none_iff]
    intro d hd
    rw [beq_eq_false_iff_ne]
    rintro rfl
    exact h hd
  rw [find, split, List.findIdx?_append, absent]
  simp [List.findIdx?_cons]

end Find

section Sizes

variable {text : List Char} {base : ℕ}

theorem whole_iff (nulFree : '\x00' ∉ text) :
    ¬ ((strtoull text base).rangeError ∨ (strtoull text base).consumed = 0 ∨
      text.getD (strtoull text base).consumed '\x00' ≠ '\x00') ↔ (strtoull text base).Whole text := by
  have bound := strtoull_consumed_le text base
  have atEnd : text.getD (strtoull text base).consumed '\x00' = '\x00' ↔
      (strtoull text base).consumed = text.length := by
    constructor
    · intro nul
      by_contra inside
      have index : (strtoull text base).consumed < text.length := by omega
      rw [List.getD_eq_getElem _ _ index] at nul
      exact nulFree (nul ▸ List.getElem_mem index)
    · intro all
      rw [all, List.getD_eq_default _ _ (Nat.le_refl _)]
  rw [Conversion.Whole, ← atEnd]
  cases (strtoull text base).rangeError <;> simp

theorem parseSize_iff (nulFree : '\x00' ∉ text) {v : ℕ} : parseSize text = some v ↔
    ((strtoull text 10).Whole text ∧ (strtoull text 10).value = v) ∧ v ≠ 0 ∧ v ≤ 2 ^ 64 - 1 := by
  rw [← whole_iff nulFree, parseSize]
  split_ifs with bad
  · constructor
    · nofun
    · rintro ⟨⟨whole, rfl⟩, positive, small⟩
      simp only [← or_assoc] at bad whole
      rcases bad with (bad | zero) | large
      · exact absurd bad whole
      · exact absurd zero positive
      · omega
  · simp only [not_or] at bad ⊢
    constructor
    · rintro ⟨⟩
      exact ⟨⟨⟨bad.1, bad.2.1, bad.2.2.1⟩, rfl⟩, bad.2.2.2.1, by omega⟩
    · rintro ⟨⟨_, rfl⟩, _⟩
      rfl

def SizeExact (text : List Char) : Prop :=
  ∀ v, parseSize text = some v ↔ Decimal text v ∧ 1 ≤ v ∧ v ≤ 2 ^ 64 - 1

/-- White space or a sign, or both, before a number in range. -/
def Disguised (base least : ℕ) (text : List Char) : Prop :=
  ∃ space sign n, (space ≠ [] ∨ sign ≠ []) ∧ Dressed base text space sign n ∧ least ≤ n ∧
    n ≤ 2 ^ 64 - 1

theorem negate_pos {n : ℕ} (positive : 1 ≤ n) (small : n ≤ 2 ^ 64 - 1) :
    1 ≤ negate n ∧ negate n ≤ 2 ^ 64 - 1 := by
  rw [negate]
  omega

theorem not_numeral_of_disguised {base least n : ℕ} (small : base ≤ 36)
    (h : Disguised base least text) : ¬ Numeral base text n := by
  obtain ⟨space, sign, m, some_, ⟨numeral, rfl, spaces, signs, _⟩, _⟩ := h
  intro number
  obtain ⟨c, head, digit⟩ := number.head small
  cases space with
  | cons d space =>
      cases head
      have value := digitValue_of_isSpace (spaces c List.mem_cons_self)
      omega
  | nil =>
      rcases signs with rfl | rfl | rfl
      · exact some_.elim (fun no => no rfl) fun no => no rfl
      · cases head
        exact absurd digit (by decide)
      · cases head
        exact absurd digit (by decide)

theorem dressed_bare {base n : ℕ} : Dressed base text [] [] n ↔ Numeral base text n := by
  constructor
  · rintro ⟨numeral, rfl, _, _, number⟩
    exact number
  · intro number
    exact ⟨text, rfl, nofun, .inl rfl, number⟩

/-- Sizes are parsed exactly, but for a number behind white space or a sign. -/
theorem sizeExact_iff (nulFree : '\x00' ∉ text) : SizeExact text ↔ ¬ Disguised 10 1 text := by
  have accepted : ∀ v, parseSize text = some v ↔ (∃ space sign n, Dressed 10 text space sign n ∧
      n < 2 ^ 64 ∧ v = if sign = ['-'] then negate n else n) ∧ v ≠ 0 ∧ v ≤ 2 ^ 64 - 1 := by
    intro v
    rw [parseSize_iff nulFree, strtoull_whole_iff (by decide)]
  constructor
  · intro exact disguised
    obtain ⟨space, sign, n, some_, dressed, positive, small⟩ := disguised
    have inRange : 1 ≤ (if sign = ['-'] then negate n else n) ∧
        (if sign = ['-'] then negate n else n) ≤ 2 ^ 64 - 1 := by
      split
      · exact negate_pos positive small
      · exact ⟨positive, small⟩
    have run := (accepted _).mpr ⟨⟨space, sign, n, dressed, by omega, rfl⟩, by omega, inRange.2⟩
    have decimal := ((exact _).mp run).1
    exact not_numeral_of_disguised (by decide) ⟨space, sign, n, some_, dressed, positive, small⟩
      (numeral_ten_iff.mpr decimal)
  · intro bare v
    rw [accepted, ← numeral_ten_iff, ← dressed_bare]
    constructor
    · rintro ⟨⟨space, sign, n, dressed, small, rfl⟩, positive, large⟩
      by_cases none_ : space = [] ∧ sign = []
      · obtain ⟨rfl, rfl⟩ := none_
        exact ⟨dressed, by omega, large⟩
      · refine absurd ⟨space, sign, n, by rwa [not_and_or] at none_, dressed, ?_, by omega⟩ bare
        by_contra zero
        obtain rfl : n = 0 := by omega
        exact positive (by split <;> rfl)
    · rintro ⟨dressed, positive, large⟩
      exact ⟨⟨[], [], v, dressed, by omega, rfl⟩, by omega, large⟩

end Sizes

section RawEvents

variable {name config : List Char}

def rawEvent (name config : List Char) : List Char := "raw:".toList ++ (name ++ ':' :: config)

/-- The event is accepted just when its last part is an integer literal up to 2^64-1, with its
value. -/
def ConfigExact (name config : List Char) : Prop :=
  ∀ event, parsePerfEvent (rawEvent name config) = some event ↔
    ∃ v, IntegerLiteral config v ∧ v ≤ 2 ^ 64 - 1 ∧ event = ⟨String.ofList name, PERF_TYPE_RAW, v⟩

theorem parsePerfEvent_raw : parsePerfEvent (rawEvent name config) =
    parseRawEvent (rawEvent name config) := by
  have start : ∀ text : List Char, text.head? ≠ some 'r' → rawEvent name config ≠ text := by
    rintro text other rfl
    exact other rfl
  have isRaw : "raw:".toList.isPrefixOf (rawEvent name config) := by
    rw [List.isPrefixOf_iff_prefix]
    exact List.prefix_append _ _
  rw [parsePerfEvent, if_neg (start _ (by decide)), if_neg (start _ (by decide)),
    if_neg (start _ (by decide)), if_neg (start _ (by decide)), if_neg (start _ (by decide)),
    if_neg (start _ (by decide)), if_neg (start _ (by decide)), if_neg (start _ (by decide)),
    if_neg (start _ (by decide)), if_neg (start _ (by decide)), if_pos isRaw]

theorem parseRawEvent_iff (nulFree : '\x00' ∉ config) (nonempty : name ≠ []) (field : ':' ∉ name)
    {event : PerfEventSpec} : parseRawEvent (rawEvent name config) = some event ↔
      (strtoull config 0).Whole config ∧
        event = ⟨String.ofList name, PERF_TYPE_RAW, (strtoull config 0).value⟩ := by
  have behind : (rawEvent name config).drop 4 = name ++ ':' :: config := List.drop_left' (by decide)
  have length : (rawEvent name config).length = 4 + name.length + 1 + config.length := by
    have parts := congrArg List.length behind
    rw [List.length_drop, List.length_append, List.length_cons] at parts
    omega
  have rest : (rawEvent name config).drop (4 + name.length + 1) = config := by
    rw [Nat.add_assoc, ← List.drop_drop, behind, ← List.drop_drop, List.drop_left]
    rfl
  have pos := List.length_pos_of_ne_nil nonempty
  rw [parseRawEvent, find_some behind field, Option.bind_some, ← whole_iff nulFree, behind,
    Nat.add_sub_cancel_left, List.take_left, rest]
  by_cases empty : config = []
  · subst empty
    rw [if_pos (.inr (by rw [length, List.length_nil]))]
    exact ⟨nofun, fun ⟨whole, _⟩ => absurd (.inr (.inl rfl)) whole⟩
  · have more := List.length_pos_of_ne_nil empty
    rw [if_neg (by omega)]
    dsimp only
    split_ifs with bad
    · exact ⟨nofun, fun ⟨whole, _⟩ => absurd bad whole⟩
    · rw [Option.some_inj, eq_comm]
      exact ⟨fun same => ⟨bad, same⟩, fun ⟨_, same⟩ => same⟩

/-- Raw configurations are parsed exactly, but for a literal behind white space or a sign. -/
theorem configExact_iff (nulFree : '\x00' ∉ config) (nonempty : name ≠ []) (field : ':' ∉ name) :
    ConfigExact name config ↔ ¬ Disguised 0 0 config := by
  have accepted : ∀ event, parsePerfEvent (rawEvent name config) = some event ↔ ∃ v,
      (∃ space sign n, Dressed 0 config space sign n ∧ n < 2 ^ 64 ∧
        v = if sign = ['-'] then negate n else n) ∧
      event = ⟨String.ofList name, PERF_TYPE_RAW, v⟩ := by
    intro event
    rw [parsePerfEvent_raw, parseRawEvent_iff nulFree nonempty field]
    constructor
    · rintro ⟨whole, rfl⟩
      exact ⟨_, (strtoull_whole_iff (by decide)).mp ⟨whole, rfl⟩, rfl⟩
    · rintro ⟨v, dressed, rfl⟩
      obtain ⟨whole, value⟩ := (strtoull_whole_iff (by decide)).mpr dressed
      rw [value]
      exact ⟨whole, rfl⟩
  constructor
  · intro exact disguised
    obtain ⟨space, sign, n, some_, dressed, least, small⟩ := disguised
    have run := (accepted _).mpr ⟨_, ⟨space, sign, n, dressed, by omega, rfl⟩, rfl⟩
    obtain ⟨v, literal, _, _⟩ := (exact _).mp run
    exact not_numeral_of_disguised (by decide) ⟨space, sign, n, some_, dressed, least, small⟩
      (numeral_zero_iff.mpr literal)
  · intro bare event
    rw [accepted]
    refine exists_congr fun v => ?_
    rw [← and_assoc]
    refine and_congr_left fun _ => ?_
    rw [← numeral_zero_iff, ← dressed_bare]
    constructor
    · rintro ⟨space, sign, n, dressed, small, rfl⟩
      by_cases none_ : space = [] ∧ sign = []
      · obtain ⟨rfl, rfl⟩ := none_
        exact ⟨dressed, by rw [if_neg nofun]; omega⟩
      · exact absurd ⟨space, sign, n, by rwa [not_and_or] at none_, dressed, Nat.zero_le _, by omega⟩
          bare
    · rintro ⟨dressed, small⟩
      exact ⟨[], [], v, dressed, by omega, rfl⟩

end RawEvents

/-- A number behind white space or a sign is all that the parsers accept beyond the grammar: the
condition is exact for every size and for the last part of every raw event. -/
theorem numbers_exact_iff (text name config : List Char) :
    ('\x00' ∉ text → (SizeExact text ↔ ¬ Disguised 10 1 text)) ∧
    (name ≠ [] → ':' ∉ name → '\x00' ∉ config →
      (ConfigExact name config ↔ ¬ Disguised 0 0 config)) :=
  ⟨sizeExact_iff, fun nonempty field nulFree => configExact_iff nulFree nonempty field⟩

theorem twelve_exact : SizeExact "12".toList ∧ ConfigExact "l2".toList "0x1a".toList := by
  have bare : ∀ (base least : ℕ) (text : List Char) (c : Char), text.head? = some c →
      ¬ isSpace c → ¬ some c ∈ [some '+', some '-'] → ¬ Disguised base least text := by
    rintro base least text c head noSpace noSign ⟨space, sign, n, some_, ⟨_, rfl, spaces, signs, _⟩, _⟩
    cases space with
    | cons d space =>
        cases head
        exact noSpace (spaces c List.mem_cons_self)
    | nil =>
        rcases signs with rfl | rfl | rfl
        · exact some_.elim (fun no => no rfl) fun no => no rfl
        · cases head
          exact noSign (by decide)
        · cases head
          exact noSign (by decide)
  obtain ⟨size, event⟩ := numbers_exact_iff "12".toList "l2".toList "0x1a".toList
  exact ⟨(size (by decide +kernel)).mpr
      (bare _ _ _ '1' (by decide +kernel) (by decide +kernel) (by decide +kernel)),
    (event (by decide +kernel) (by decide +kernel) (by decide +kernel)).mpr
      (bare _ _ _ '0' (by decide +kernel) (by decide +kernel) (by decide +kernel))⟩

/-- `--m -1` asks for 2^64-1 rows, and ` +7` is a size; a raw event takes `-1` too. -/
theorem minus_one_accepted :
    parseSize "-1".toList = some (2 ^ 64 - 1) ∧ parseSize " +7".toList = some 7 ∧
    parsePerfEvent "raw:x:-1".toList = some ⟨"x", PERF_TYPE_RAW, 2 ^ 64 - 1⟩ ∧
    ¬ SizeExact "-1".toList ∧ ¬ ConfigExact "x".toList "-1".toList := by
  have size : parseSize "-1".toList = some (2 ^ 64 - 1) := by decide +kernel
  have raw : parsePerfEvent (rawEvent "x".toList "-1".toList) =
      some ⟨"x", PERF_TYPE_RAW, 2 ^ 64 - 1⟩ := by decide +kernel
  refine ⟨size, by decide +kernel, raw, ?_, ?_⟩
  · intro exact
    obtain ⟨⟨_, digits, _⟩, _⟩ := (exact _).mp size
    exact absurd (digits '-' (by decide +kernel)) (by decide)
  · intro exact
    obtain ⟨v, literal, _⟩ := (exact _).mp raw
    obtain ⟨c, head, digit⟩ := (numeral_zero_iff.mpr literal).head (by decide)
    cases head
    exact absurd digit (by decide)

section Lists

variable {text body token rest : List Char} {events parsed after : List PerfEventSpec}
  {event : PerfEventSpec}

theorem comma_induction {motive : List Char → Prop} (empty : motive [])
    (last : ∀ token, token ≠ [] → ',' ∉ token → motive token)
    (cons : ∀ token rest, ',' ∉ token → motive rest → motive (token ++ ',' :: rest))
    (text : List Char) : motive text := by
  by_cases comma : ',' ∈ text
  · obtain ⟨token, rest, rfl, field⟩ := List.eq_append_cons_of_mem comma
    exact cons token rest field (comma_induction empty last cons rest)
  · by_cases none_ : text = []
    · exact none_ ▸ empty
    · exact last text none_ comma
termination_by text.length
decreasing_by
  subst_vars
  rw [List.length_append, List.length_cons]
  omega

def NamesDistinct (events : List PerfEventSpec) : Prop := (events.map PerfEventSpec.name).Nodup

/-- Every field is an event, and all names are distinct, also from those present. -/
structure Accepted (text : List Char) (events parsed : List PerfEventSpec) : Prop where
  fields : List.Forall₂ (fun field event => field ≠ [] ∧ parsePerfEvent field = some event)
    (text.splitOn ',') parsed
  names : NamesDistinct (events ++ parsed)

/-- The list is accepted just by the grammar, and its events are appended in order. -/
def ListExact (text : List Char) (events : List PerfEventSpec) : Prop :=
  ∀ after, appendPerfEvents text events = (true, after) ↔
    ∃ parsed, Accepted text events parsed ∧ after = events ++ parsed

theorem namesDistinct_snoc : NamesDistinct (events ++ [event]) ↔
    NamesDistinct events ∧ (events.any fun existing => existing.name == event.name) = false := by
  rw [NamesDistinct, List.map_append, List.nodup_append, List.any_eq_false]
  simp only [List.map_cons, List.map_nil, List.mem_singleton, List.mem_map, forall_eq]
  constructor
  · rintro ⟨distinct, _, fresh⟩
    refine ⟨distinct, ?_⟩
    intro existing member same
    exact fresh _ ⟨existing, member, rfl⟩ (eq_of_beq same)
  · rintro ⟨distinct, fresh⟩
    refine ⟨distinct, List.nodup_singleton _, ?_⟩
    rintro _ ⟨existing, member, rfl⟩ same
    exact fresh existing member (beq_iff_eq.mpr same)

theorem appendPerfEvents_nil : appendPerfEvents [] events = (true, events) := by
  rw [appendPerfEvents, dif_pos rfl]

/-- The vector after a token, when the token is accepted. -/
def pushed (token : List Char) (events : List PerfEventSpec) : Option (List PerfEventSpec) :=
  (if token = [] then none else parsePerfEvent token).bind fun event =>
    if events.any fun existing => existing.name == event.name then none
    else some (events ++ [event])

theorem pushed_iff (distinct : NamesDistinct events) : pushed token events = some after ↔
    ∃ event, (token ≠ [] ∧ parsePerfEvent token = some event) ∧
      NamesDistinct (events ++ [event]) ∧ after = events ++ [event] := by
  rw [pushed, Option.bind_eq_some_iff]
  refine exists_congr fun event => and_congr ?_ ?_
  · by_cases empty : token = []
    · rw [if_pos empty]
      exact ⟨nofun, fun h => absurd empty h.1⟩
    · rw [if_neg empty]
      exact ⟨fun h => ⟨empty, h⟩, fun h => h.2⟩
  · rw [namesDistinct_snoc]
    by_cases taken : (events.any fun existing => existing.name == event.name) = true
    · rw [if_pos taken, taken]
      exact ⟨nofun, fun h => absurd h.1.2 (by decide)⟩
    · rw [if_neg taken, Option.some_inj]
      rw [Bool.not_eq_true] at taken
      exact ⟨fun h => ⟨⟨distinct, taken⟩, h.symm⟩, fun h => h.2.symm⟩

theorem appendPerfEvents_last (some_ : token ≠ []) (field : ',' ∉ token) :
    appendPerfEvents token events = ((pushed token events).isSome, (pushed token events).getD events) := by
  rw [appendPerfEvents, dif_neg some_, find_none (by rwa [List.drop_zero])]
  dsimp only
  rw [Option.getD_none, List.take_length, pushed]
  cases (if token = [] then none else parsePerfEvent token) with
  | none => rfl
  | some event =>
      dsimp only
      rw [Option.bind_some]
      split_ifs <;> rfl

theorem appendPerfEvents_cons (field : ',' ∉ token) :
    appendPerfEvents (token ++ ',' :: rest) events = match pushed token events with
      | none => (false, events)
      | some events => appendPerfEvents rest events := by
  have found : find (token ++ ',' :: rest) ',' 0 = some token.length := by
    rw [find_some (List.drop_zero) field, Nat.zero_add]
  have remains : (token ++ ',' :: rest).drop (token.length + 1) = rest := by
    rw [← List.drop_drop, List.drop_left]
    rfl
  rw [appendPerfEvents, dif_neg (by simp), found]
  dsimp only
  rw [Option.getD_some, List.take_left, remains, pushed]
  cases (if token = [] then none else parsePerfEvent token) with
  | none => rfl
  | some event =>
      dsimp only
      rw [Option.bind_some]
      split_ifs <;> rfl

theorem accepted_last (field : ',' ∉ token) : Accepted token events parsed ↔
    ∃ event, (token ≠ [] ∧ parsePerfEvent token = some event) ∧
      NamesDistinct (events ++ [event]) ∧ parsed = [event] := by
  constructor
  · rintro ⟨fields, names⟩
    rw [List.splitOn_eq_singleton field] at fields
    cases fields with
    | cons first later =>
        cases later
        exact ⟨_, first, names, rfl⟩
  · rintro ⟨event, first, names, rfl⟩
    refine ⟨?_, names⟩
    rw [List.splitOn_eq_singleton field]
    exact .cons first .nil

theorem accepted_cons (field : ',' ∉ token) : Accepted (token ++ ',' :: rest) events parsed ↔
    ∃ event later, (token ≠ [] ∧ parsePerfEvent token = some event) ∧
      Accepted rest (events ++ [event]) later ∧ parsed = event :: later := by
  constructor
  · rintro ⟨fields, names⟩
    rw [List.splitOn_append_cons_self_of_not_mem field] at fields
    cases fields with
    | @cons _ event _ later first fields =>
        refine ⟨event, later, first, ⟨fields, ?_⟩, rfl⟩
        rwa [List.append_assoc]
  · rintro ⟨event, later, first, ⟨fields, names⟩, rfl⟩
    rw [List.append_assoc] at names
    refine ⟨?_, names⟩
    rw [List.splitOn_append_cons_self_of_not_mem field]
    exact .cons first fields

theorem Accepted.distinct (h : Accepted text events parsed) : NamesDistinct events := by
  have names := h.names
  rw [NamesDistinct, List.map_append] at names
  exact (List.nodup_append.mp names).1

theorem not_accepted_trailing : ¬ Accepted (body ++ [',']) events parsed := by
  rintro ⟨fields, _⟩
  rw [List.splitOn_append_cons_self, List.splitOn_nil, List.forall₂_and_left] at fields
  exact fields.1 [] (List.mem_append_right _ List.mem_cons_self) rfl

theorem not_accepted_nil : ¬ Accepted [] events parsed := by
  rintro ⟨fields, _⟩
  rw [List.splitOn_nil, List.forall₂_and_left] at fields
  exact fields.1 [] List.mem_cons_self rfl

theorem body_of_cons (shape : token ++ ',' :: rest = body ∨ token ++ ',' :: rest = body ++ [',']) :
    (rest = [] ∧ body = token) ∨
      ∃ later, body = token ++ ',' :: later ∧ (rest = later ∨ rest = later ++ [',']) := by
  rcases shape with rfl | whole
  · exact .inr ⟨rest, rfl, .inl rfl⟩
  · rcases List.eq_nil_or_concat' rest with rfl | ⟨later, last, rfl⟩
    · exact .inl ⟨rfl, (List.append_inj_left' whole rfl).symm⟩
    · rw [← List.cons_append, ← List.append_assoc] at whole
      obtain ⟨same, ends⟩ := List.append_inj' whole rfl
      cases ends
      exact .inr ⟨later, same.symm, .inr rfl⟩

/-- The loop accepts the empty text, and the texts of the grammar with or without a last comma. -/
theorem appendPerfEvents_iff (distinct : NamesDistinct events) :
    appendPerfEvents text events = (true, after) ↔ text = [] ∧ after = events ∨
      ∃ body parsed, (text = body ∨ text = body ++ [',']) ∧ Accepted body events parsed ∧
        after = events ++ parsed := by
  induction text using comma_induction generalizing events with
  | empty =>
      rw [appendPerfEvents_nil]
      constructor
      · rintro ⟨⟩
        exact .inl ⟨rfl, rfl⟩
      · rintro (⟨_, rfl⟩ | ⟨body, parsed, rfl | whole, accepted, _⟩)
        · rfl
        · exact absurd accepted not_accepted_nil
        · exact absurd whole.symm (List.append_ne_nil_of_right_ne_nil _ (List.cons_ne_nil _ _))
  | last token some_ field =>
      rw [appendPerfEvents_last some_ field, or_iff_right fun h => some_ h.1]
      constructor
      · intro run
        cases push : pushed token events with
        | none =>
            rw [push] at run
            cases run
        | some next =>
            obtain ⟨event, first, names, rfl⟩ := (pushed_iff distinct).mp push
            rw [push] at run
            cases run
            exact ⟨token, [event], .inl rfl, (accepted_last field).mpr ⟨event, first, names, rfl⟩, rfl⟩
      · rintro ⟨body, parsed, rfl | rfl, accepted, rfl⟩
        · obtain ⟨event, first, names, rfl⟩ := (accepted_last field).mp accepted
          rw [(pushed_iff distinct).mpr ⟨event, first, names, rfl⟩]
          rfl
        · exact absurd (List.mem_append_right _ List.mem_cons_self) field
  | cons token rest field ih =>
      rw [appendPerfEvents_cons field, or_iff_right fun h =>
        List.append_ne_nil_of_right_ne_nil token (List.cons_ne_nil _ rest) h.1]
      constructor
      · cases push : pushed token events with
        | none => nofun
        | some next =>
            obtain ⟨event, first, names, rfl⟩ := (pushed_iff distinct).mp push
            intro run
            rcases (ih names).mp run with ⟨rfl, rfl⟩ | ⟨body, parsed, shape, accepted, rfl⟩
            · exact ⟨token, [event], .inr rfl, (accepted_last field).mpr ⟨event, first, names, rfl⟩, rfl⟩
            · refine ⟨token ++ ',' :: body, event :: parsed, ?_, (accepted_cons field).mpr
                ⟨event, parsed, first, accepted, rfl⟩, by rw [List.append_assoc]; rfl⟩
              rcases shape with rfl | rfl
              · exact .inl rfl
              · exact .inr (by rw [List.append_assoc]; rfl)
      · rintro ⟨body, parsed, shape, accepted, rfl⟩
        rcases body_of_cons shape with ⟨rfl, rfl⟩ | ⟨later, rfl, remains⟩
        · obtain ⟨event, first, names, rfl⟩ := (accepted_last field).mp accepted
          rw [(pushed_iff distinct).mpr ⟨event, first, names, rfl⟩]
          exact appendPerfEvents_nil
        · obtain ⟨event, parsed, first, others, rfl⟩ := (accepted_cons field).mp accepted
          rw [(pushed_iff distinct).mpr ⟨event, first, others.distinct, rfl⟩]
          refine (ih others.distinct).mpr (.inr ⟨later, parsed, remains, others, ?_⟩)
          rw [List.append_assoc]
          rfl

theorem appendPerfEvents_distinct (distinct : NamesDistinct events) :
    NamesDistinct (appendPerfEvents text events).2 := by
  induction text using comma_induction generalizing events with
  | empty =>
      rw [appendPerfEvents_nil]
      exact distinct
  | last token some_ field =>
      rw [appendPerfEvents_last some_ field]
      cases push : pushed token events with
      | none => exact distinct
      | some next =>
          obtain ⟨event, _, names, rfl⟩ := (pushed_iff distinct).mp push
          exact names
  | cons token rest field ih =>
      rw [appendPerfEvents_cons field]
      cases push : pushed token events with
      | none => exact distinct
      | some next =>
          obtain ⟨event, _, names, rfl⟩ := (pushed_iff distinct).mp push
          exact ih names

theorem options_distinct {options : PerfOptions} (h : Reach PerfOptions.start
    (fun options list => some (options.option list)) options) : NamesDistinct options.events := by
  have first : NamesDistinct PerfOptions.start.events := List.nodup_singleton _
  refine h.invariant (fun options : PerfOptions => NamesDistinct options.events) first ?_
  intro options list distinct
  refine .some (appendPerfEvents_distinct ?_)
  cases options.explicit with
  | true => exact distinct
  | false => exact List.nodup_nil

theorem listExact_iff (distinct : NamesDistinct events) : ListExact text events ↔
    ¬ (text = [] ∨ ∃ body parsed, text = body ++ [','] ∧ Accepted body events parsed) := by
  constructor
  · rintro exact (rfl | ⟨body, parsed, rfl, accepted⟩)
    · obtain ⟨parsed, accepted, _⟩ := (exact events).mp appendPerfEvents_nil
      exact not_accepted_nil accepted
    · have run := (appendPerfEvents_iff distinct).mpr (.inr ⟨body, parsed, .inr rfl, accepted, rfl⟩)
      obtain ⟨_, whole, _⟩ := (exact _).mp run
      exact not_accepted_trailing whole
  · intro proper after
    rw [appendPerfEvents_iff distinct]
    constructor
    · rintro (⟨rfl, _⟩ | ⟨body, parsed, rfl | rfl, accepted, same⟩)
      · exact absurd (.inl rfl) proper
      · exact ⟨parsed, accepted, same⟩
      · exact absurd (.inr ⟨body, parsed, rfl, accepted⟩) proper
    · rintro ⟨parsed, accepted, same⟩
      exact .inr ⟨text, parsed, .inl rfl, accepted, same⟩

end Lists

/-- An empty remainder is all that `append_perf_events` accepts beyond the grammar: the condition is
exact for every list, and no sequence of options repeats a name. -/
theorem lists_exact_iff (text : List Char) (events : List PerfEventSpec) (options : PerfOptions) :
    (NamesDistinct events → (ListExact text events ↔
      ¬ (text = [] ∨ ∃ body parsed, text = body ++ [','] ∧ Accepted body events parsed))) ∧
    (Reach PerfOptions.start (fun options list => some (options.option list)) options →
      NamesDistinct options.events) :=
  ⟨listExact_iff, options_distinct⟩

theorem two_events_exact : ListExact "llc-miss,cycles".toList [] ∧
    NamesDistinct (PerfOptions.start.option "llc-miss,cycles".toList).2.events := by
  obtain ⟨grammar, distinct⟩ := lists_exact_iff "llc-miss,cycles".toList [] _
  constructor
  · refine (grammar List.nodup_nil).mpr ?_
    rintro (empty | ⟨body, _, trailing, _⟩)
    · exact absurd empty (by decide +kernel)
    · have last := congrArg List.getLast? trailing
      rw [List.getLast?_concat] at last
      exact absurd last (by decide +kernel)
  · exact distinct (.next .start rfl)

/-- `cycles,` and the empty text are accepted, though each has an empty field. -/
theorem trailing_comma_accepted :
    appendPerfEvents "cycles,".toList [] = (true, [cyclesEvent]) ∧
    appendPerfEvents [] [] = (true, []) ∧ appendPerfEvents ",cycles".toList [] = (false, []) ∧
    ¬ ListExact "cycles,".toList [] ∧ ¬ ListExact [] [] := by
  have comma : appendPerfEvents "cycles,".toList [] = (true, [cyclesEvent]) := by
    rw [show "cycles,".toList = "cycles".toList ++ [','] by decide +kernel,
      appendPerfEvents_cons (by decide +kernel)]
    exact appendPerfEvents_nil
  refine ⟨comma, appendPerfEvents_nil, ?_, ?_, ?_⟩
  · exact appendPerfEvents_cons List.not_mem_nil
  · intro exact
    obtain ⟨_, accepted, _⟩ := (exact _).mp comma
    rw [show "cycles,".toList = "cycles".toList ++ [','] by decide +kernel] at accepted
    exact not_accepted_trailing accepted
  · intro exact
    obtain ⟨_, accepted, _⟩ := (exact _).mp appendPerfEvents_nil
    exact not_accepted_nil accepted

end Pfng.Bench
