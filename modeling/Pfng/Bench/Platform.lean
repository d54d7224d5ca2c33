import Mathlib.Data.List.DropRight
import Pfng.Bench.Run
import Pfng.Lib.Segments

/-! Which board the program is on, and whether it was built for it. Files are bytes; the constants of
the generated `build_manifest.h` are a parameter. -/
namespace Pfng.Bench
open Segments

/-- A `const char *`: the bytes before its terminator. -/
structure CString where
  bytes : List UInt8
  terminated : 0 ∉ bytes

structure BuildManifest where
  kBuildTargetPlatform : String
  kBuildDeviceTreeCompatibles : List CString

structure PlatformDetectionResult where
  platform : PlatformId := .unknown
  model : List UInt8 := []
  compatibles : List (List UInt8) := []
  error : String := ""

/-- `read_file`; `none` is a path that does not open. -/
def readFile (file : Option (List UInt8)) : List UInt8 := file.getD []

/-- The loop of `split_compatible` at `begin`. -/
def splitCompatibleFrom (contents : List UInt8) (start : ℕ) (values : List (List UInt8)) :
    List (List UInt8) :=
  if start < contents.length then
    let length := (next 0 contents start).getD contents.length - start
    let grown := if length ≠ 0 then values ++ [(contents.drop start).take length] else values
    match _found : next 0 contents start with
    | none => grown
    | some stop => splitCompatibleFrom contents (stop + 1) grown
  else values
termination_by contents.length - start
decreasing_by
  have := (next_some _found).1
  omega

def splitCompatible (contents : List UInt8) : List (List UInt8) := splitCompatibleFrom contents 0 []

def trimTrailingNuls (value : List UInt8) : List UInt8 :=
  value.rdropWhile fun c => c == 0 || c == 10

def platformFromName (name : String) : PlatformId :=
  if name = "spacemit-k1-a60" then .spacemitK1A60
  else if name = "spacemit-k1-x60" then .spacemitK1X60
  else if name = "spacemit-k3-a100" then .spacemitK3A100
  else .unknown

def buildTargetPlatform (manifest : BuildManifest) : PlatformId :=
  platformFromName manifest.kBuildTargetPlatform

/-- `device_tree_root` gives the contents of the file of a name. -/
def detectRuntimePlatform (manifest : BuildManifest)
    (device_tree_root : String → Option (List UInt8)) : PlatformDetectionResult :=
  let compatible := readFile (device_tree_root "compatible")
  if compatible = [] then { error := "unable to read Device Tree compatible" }
  else
    let compatibles := splitCompatible compatible
    let model := trimTrailingNuls (readFile (device_tree_root "model"))
    if manifest.kBuildDeviceTreeCompatibles.any fun expected => compatibles.contains expected.bytes
    then { platform := buildTargetPlatform manifest, model, compatibles }
    else { model, compatibles, error := "unrecognized Device Tree compatible" }

/-- The result and `error` after the call. -/
def verifyRuntimePlatform (manifest : BuildManifest) (detected : PlatformDetectionResult)
    (error : String) : Bool × String :=
  if detected.platform = .unknown then
    (false, if detected.error = "" then "unable to identify runtime platform" else detected.error)
  else if detected.platform ≠ buildTargetPlatform manifest then
    (false, "binary was built for " ++ manifest.kBuildTargetPlatform ++
      ", but runtime platform is " ++ platformName detected.platform)
  else (true, error)

section Names

theorem platformFromName_platformName (platform : PlatformId) :
    platformFromName (platformName platform) = platform := by
  cases platform <;> rfl

theorem platformFromName_known (name : String) :
    platformFromName name ≠ .unknown ↔ ∃ platform, platform ≠ .unknown ∧ platformName platform = name := by
  constructor
  · intro known
    refine ⟨platformFromName name, known, ?_⟩
    unfold platformFromName at known ⊢
    split_ifs at known ⊢ <;> simp_all [platformName]
  · rintro ⟨platform, known, rfl⟩
    rwa [platformFromName_platformName]

end Names

section Split

theorem splitCompatibleFrom_eq (contents : List UInt8) (start : ℕ) (values : List (List UInt8)) :
    splitCompatibleFrom contents start values = values ++ segments 0 (contents.drop start) := by
  fun_induction splitCompatibleFrom contents start values with
  | case1 start values inside length grown last =>
    have piece : length = contents.length - start := by simp [length, last]
    rw [segments_drop_none last, slice, ← piece]
    simp only [grown]
    split_ifs <;> simp
  | case2 start values inside length grown stop found ih =>
    have piece : length = stop - start := by simp [length, found]
    rw [ih, segments_drop_some found, slice, ← piece, ← List.append_assoc]
    congr 1
    simp only [grown]
    split_ifs <;> simp
  | case3 start values past =>
    rw [List.drop_of_length_le (Nat.le_of_not_lt past), segments_nil, List.append_nil]

theorem splitCompatible_eq (contents : List UInt8) :
    splitCompatible contents = segments 0 contents := by
  rw [splitCompatible, splitCompatibleFrom_eq, List.drop_zero, List.nil_append]

end Split

section Detection

/-- An expected string is one whole entry of `compatible`. -/
def Listed (manifest : BuildManifest) (contents : List UInt8) : Prop :=
  ∃ expected ∈ manifest.kBuildDeviceTreeCompatibles,
    ∃ b e, IsSegment 0 contents b e ∧ expected.bytes = slice contents b e

variable {manifest : BuildManifest} {root : String → Option (List UInt8)}

theorem expected_found (manifest : BuildManifest) (contents : List UInt8) :
    (manifest.kBuildDeviceTreeCompatibles.any fun expected =>
      (splitCompatible contents).contains expected.bytes) = true ↔ Listed manifest contents := by
  simp only [List.any_eq_true, List.contains_iff_mem, splitCompatible_eq, mem_segments, Listed]

theorem not_listed_nil (manifest : BuildManifest) : ¬ Listed manifest [] := by
  rintro ⟨expected, -, b, e, h, -⟩
  exact Nat.not_lt_zero b (Nat.lt_of_lt_of_le h.nonempty h.inside)

theorem detect_listed (h : Listed manifest (readFile (root "compatible"))) :
    (detectRuntimePlatform manifest root).platform = buildTargetPlatform manifest := by
  have some : readFile (root "compatible") ≠ [] := by
    intro none
    rw [none] at h
    exact not_listed_nil manifest h
  simp only [detectRuntimePlatform, if_neg some, (expected_found manifest _).mpr h, if_true]

theorem detect_unlisted (h : ¬ Listed manifest (readFile (root "compatible"))) :
    (detectRuntimePlatform manifest root).platform = .unknown ∧
      (detectRuntimePlatform manifest root).error ≠ "" := by
  unfold detectRuntimePlatform
  by_cases none : readFile (root "compatible") = []
  · simp [none]
  · have missing := mt (expected_found manifest _).mp h
    simp only [if_neg none, if_neg missing]
    simp

theorem verify_iff (detected : PlatformDetectionResult) (error : String) :
    (verifyRuntimePlatform manifest detected error).1 = true ↔
      detected.platform ≠ .unknown ∧ detected.platform = buildTargetPlatform manifest := by
  unfold verifyRuntimePlatform
  split_ifs with unknown differs <;> simp_all

theorem verify_error {detected : PlatformDetectionResult} {error : String}
    (h : (verifyRuntimePlatform manifest detected error).1 = false) :
    (verifyRuntimePlatform manifest detected error).2 ≠ "" := by
  unfold verifyRuntimePlatform at h ⊢
  split_ifs at h ⊢ with unknown none differs
  · simp
  · exact none
  · simp [String.append_eq_empty_iff]

end Detection

/-- `split_compatible` gives the entries, in order, and detection followed by verification accepts
exactly a known build target one of whose strings is a whole entry. -/
theorem platform_detection :
    (∀ contents : List UInt8, ∃ spans : List (ℕ × ℕ), spans.Pairwise (fun s t => s.2 < t.1) ∧
      (∀ b e, (b, e) ∈ spans ↔ IsSegment 0 contents b e) ∧
      splitCompatible contents = spans.map fun s => slice contents s.1 s.2) ∧
    (∀ entries : List (List UInt8), (∀ s ∈ entries, s ≠ [] ∧ 0 ∉ s) →
      splitCompatible ([0].intercalate entries) = entries ∧
      splitCompatible ([0].intercalate entries ++ [0]) = entries) ∧
    ∀ (manifest : BuildManifest) (root : String → Option (List UInt8)) (error : String),
      let detected := detectRuntimePlatform manifest root
      let verified := verifyRuntimePlatform manifest detected error
      (verified.1 = true ↔
        (∃ platform, platform ≠ .unknown ∧ platformName platform = manifest.kBuildTargetPlatform) ∧
          Listed manifest (readFile (root "compatible"))) ∧
      (verified.1 = true → detected.platform = buildTargetPlatform manifest) ∧
      (verified.1 = false → detected.platform = .unknown ∧ verified.2 ≠ "") := by
  refine ⟨fun contents => ?_, fun entries h => ⟨?_, ?_⟩, fun manifest root error => ⟨?_, ?_, ?_⟩⟩
  · rw [splitCompatible_eq]
    exact segments_spans 0 contents
  · rw [splitCompatible_eq, segments_intercalate h]
  · rw [splitCompatible_eq, segments_append_sep, segments_intercalate h]
  · rw [verify_iff, ← platformFromName_known]
    by_cases listed : Listed manifest (readFile (root "compatible"))
    · simp [detect_listed listed, listed, buildTargetPlatform]
    · simp [(detect_unlisted listed).1, listed]
  · exact fun verified => (verify_iff _ _).mp verified |>.2
  · intro failed
    refine ⟨?_, verify_error failed⟩
    by_cases listed : Listed manifest (readFile (root "compatible"))
    · by_contra known
      rw [(verify_iff _ _).mpr ⟨known, detect_listed listed⟩] at failed
      cases failed
    · exact (detect_unlisted listed).1

/-- `spacemit,k1-x`. -/
def k1x : CString := ⟨[115, 112, 97, 99, 101, 109, 105, 116, 44, 107, 49, 45, 120], by decide⟩

def vendorGeneric : List UInt8 := [118, 101, 110, 100, 111, 114, 44, 103, 101, 110, 101, 114, 105, 99]

theorem platform_detection_k1x :
    let contents := [0].intercalate [vendorGeneric, k1x.bytes] ++ [0]
    let manifest : BuildManifest := ⟨"spacemit-k1-x60", [k1x]⟩
    let root := fun name => if name = "compatible" then some contents else none
    splitCompatible contents = [vendorGeneric, k1x.bytes] ∧
      (verifyRuntimePlatform manifest (detectRuntimePlatform manifest root) "").1 = true := by
  intro contents manifest root
  have segment : IsSegment 0 contents 15 28 :=
    ⟨by decide, by decide, by decide, Or.inr (by decide), Or.inr (by decide)⟩
  refine ⟨(platform_detection.2.1 _ (by decide)).2, (platform_detection.2.2 manifest root "").1.mpr ?_⟩
  exact ⟨⟨.spacemitK1X60, by decide, rfl⟩, k1x, List.mem_singleton_self _, 15, 28, segment, rfl⟩

end Pfng.Bench
