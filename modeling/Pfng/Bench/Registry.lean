import Pfng.Bench.Platform

/-! The registry of kernels. What a registration may get wrong is a field that is empty; a kernel that
is registered has none. -/
namespace Pfng.Bench

/-- `KernelCallbacks` as it is registered; a pointer may be null. -/
structure CallbackPointers (α S I : Type) where
  peakPerformance : Option (BenchmarkRequest → PeakPerformance α)
  validate : Option (BenchmarkRequest → ValidationResult)
  prepare : Option (BenchmarkRequest → I → PrepareResult S)
  reset : Option (S → S)
  run : Option (S → ℕ → S)
  exportOutput : Option (S → ExportResult × (ℕ → Float32 α))
  checksum : Option (S → α)
  destroy : Option (S → Unit)

/-- All callbacks, unless one is missing. -/
def CallbackPointers.complete {α S I : Type} (pointers : CallbackPointers α S I) :
    Option (KernelCallbacks α S I) :=
  match pointers with
  | ⟨some peakPerformance, some validate, some prepare, some reset, some run, some exportOutput,
      some checksum, some _⟩ =>
      some ⟨peakPerformance, validate, prepare, reset, run, exportOutput, checksum⟩
  | _ => none

/-- The argument of `register_kernel`. -/
structure Registration (α I : Type) where
  State : Type
  id : String
  name : String
  quantization : QuantizationType
  callbacks : CallbackPointers α State I

/-- An element of `registry()`. -/
structure Kernel (α I : Type) where
  State : Type
  id : String
  name : String
  registration : KernelRegistration α State I

variable {α I : Type}

def findKernel (registry : List (Kernel α I)) (id : String) : Option (Kernel α I) :=
  registry.find? fun kernel => kernel.id == id

/-- The text of `registration_error`, which then aborts. -/
def registrationError (message id : String) : String :=
  "kernel registration error for '" ++ id ++ "': " ++ message ++ "\n"

def registerKernel (manifest : BuildManifest) (registry : List (Kernel α I))
    (registration : Registration α I) : Except String (List (Kernel α I)) :=
  if registration.id = "" then .error (registrationError "empty id" registration.id)
  else if registration.name = "" then .error (registrationError "empty name" registration.id)
  else
    match registration.callbacks.complete with
    | none => .error (registrationError "missing required callback" registration.id)
    | some callbacks =>
        if (findKernel registry registration.id).isSome then
          .error (registrationError "duplicate id" registration.id)
        else
          let platform := buildTargetPlatform manifest
          if platform = .unknown then
            .error (registrationError "unknown build target platform" registration.id)
          else .ok (registry ++ [⟨registration.State, registration.id, registration.name,
            ⟨registration.quantization, callbacks, platform⟩⟩])

/-- The calls of `register_kernel` that `register_builtin_kernels` makes. -/
def registerBuiltinKernels (manifest : BuildManifest) (registrations : List (Registration α I)) :
    Except String (List (Kernel α I)) :=
  registrations.foldlM (registerKernel manifest) []

/-- A registration that can be accepted, and the kernel it gives. -/
inductive Registers (platform : PlatformId) : Registration α I → Kernel α I → Prop
  | mk {registration : Registration α I} {callbacks : KernelCallbacks α registration.State I}
      (id : registration.id ≠ "") (name : registration.name ≠ "")
      (complete : registration.callbacks.complete = some callbacks) :
      Registers platform registration ⟨registration.State, registration.id, registration.name,
        ⟨registration.quantization, callbacks, platform⟩⟩

section Registry

variable {manifest : BuildManifest} {registry after : List (Kernel α I)}
variable {registration : Registration α I} {registrations : List (Registration α I)} {kernel : Kernel α I}

theorem findKernel_isSome {id : String} :
    (findKernel registry id).isSome ↔ id ∈ registry.map (·.id) := by
  simp only [findKernel, List.find?_isSome, beq_iff_eq, List.mem_map]

theorem registerKernel_iff : registerKernel manifest registry registration = .ok after ↔
    ∃ kernel, Registers (buildTargetPlatform manifest) registration kernel ∧
      registration.id ∉ registry.map (·.id) ∧ buildTargetPlatform manifest ≠ .unknown ∧
      after = registry ++ [kernel] := by
  rw [registerKernel, ← findKernel_isSome]
  constructor
  · intro run
    by_cases id : registration.id = ""
    · rw [if_pos id] at run
      cases run
    by_cases name : registration.name = ""
    · rw [if_neg id, if_pos name] at run
      cases run
    rw [if_neg id, if_neg name] at run
    cases complete : registration.callbacks.complete with
    | none =>
        rw [complete] at run
        cases run
    | some callbacks =>
        simp only [complete] at run
        split_ifs at run with duplicate unknown
        cases run
        exact ⟨_, .mk id name complete, duplicate, unknown, rfl⟩
  · rintro ⟨kernel, ⟨id, name, complete⟩, fresh, known, rfl⟩
    rw [if_neg id, if_neg name, complete]
    simp only [if_neg fresh, if_neg known]

theorem Registers.id_eq {platform : PlatformId} (h : Registers platform registration kernel) :
    kernel.id = registration.id := by
  cases h
  rfl

/-- One kernel for each registration, in order. -/
theorem registerBuiltinKernels_iff (registry : List (Kernel α I)) :
    registrations.foldlM (registerKernel manifest) registry = .ok after ↔
      ∃ kernels, after = registry ++ kernels ∧
        List.Forall₂ (Registers (buildTargetPlatform manifest)) registrations kernels ∧
        (∀ kernel ∈ kernels, kernel.id ∉ registry.map (·.id)) ∧ (kernels.map (·.id)).Nodup ∧
        (registrations = [] ∨ buildTargetPlatform manifest ≠ .unknown) := by
  induction registrations generalizing registry with
  | nil =>
      constructor
      · intro run
        cases run
        exact ⟨[], (List.append_nil _).symm, .nil, by simp, List.nodup_nil, .inl rfl⟩
      · rintro ⟨kernels, rfl, each, _⟩
        cases each
        rw [List.append_nil]
        rfl
  | cons registration registrations ih =>
      rw [List.foldlM_cons]
      constructor
      · intro run
        cases first : registerKernel manifest registry registration with
        | error text =>
            rw [first] at run
            cases run
        | ok grown =>
            rw [first] at run
            obtain ⟨kernel, registers, fresh, known, rfl⟩ := registerKernel_iff.mp first
            obtain ⟨kernels, rfl, each, apart, distinct, _⟩ := (ih _).mp run
            refine ⟨kernel :: kernels, by simp, .cons registers each, ?_, ?_, .inr known⟩
            · intro later member
              rcases List.mem_cons.mp member with rfl | member
              · rwa [registers.id_eq]
              · have := apart later member
                simp only [List.map_append, List.mem_append, not_or] at this
                exact this.1
            · refine List.nodup_cons.mpr ⟨fun member => ?_, distinct⟩
              obtain ⟨later, found, same⟩ := List.mem_map.mp member
              have := apart later found
              simp [same] at this
      · rintro ⟨kernels, rfl, each, apart, distinct, known⟩
        cases each with
        | @cons _ kernel _ kernels registers each =>
            have unknown : buildTargetPlatform manifest ≠ .unknown := known.resolve_left (by simp)
            obtain ⟨fresh, distinct⟩ := List.nodup_cons.mp distinct
            have first : registerKernel manifest registry registration = .ok (registry ++ [kernel]) := by
              refine registerKernel_iff.mpr ⟨kernel, registers, ?_, unknown, rfl⟩
              rw [← registers.id_eq]
              exact apart kernel List.mem_cons_self
            rw [first]
            refine (ih _).mpr ⟨kernels, by simp, each, fun later member => ?_, distinct, .inr unknown⟩
            have old := apart later (List.mem_cons_of_mem _ member)
            simp only [List.map_append, List.mem_append, not_or]
            refine ⟨old, fun same => fresh ?_⟩
            rw [List.map_singleton, List.mem_singleton] at same
            exact List.mem_map.mpr ⟨later, member, same⟩

theorem Registers.supports {platform : PlatformId} (known : platform ≠ .unknown)
    (h : Registers platform registration kernel) :
    kernelSupportsPlatform kernel.registration platform = true := by
  cases h
  simp [kernelSupportsPlatform, known]

theorem registers_of_mem {platform : PlatformId}
    (each : List.Forall₂ (Registers platform) registrations registry) (member : kernel ∈ registry) :
    ∃ registration ∈ registrations, Registers platform registration kernel := by
  induction each with
  | nil => exact absurd member List.not_mem_nil
  | cons registers _ ih =>
      rcases List.mem_cons.mp member with rfl | member
      · exact ⟨_, List.mem_cons_self, registers⟩
      · obtain ⟨source, found, same⟩ := ih member
        exact ⟨source, List.mem_cons_of_mem _ found, same⟩

end Registry

end Pfng.Bench
