import SourceCoverage.Proofs.Pipeline.Program
import SourceCoverage.Proofs.Run

/-!
# Coverage Is Transparent

A program is built and run through a pass pipeline twice: once instrumented, with coverage, and
once without any instrumentation and without coverage. The passes delete the same functions in
both, and leave those that remain in the same order, with the same linkage and the same bodies,
once the counter updates are erased. So whoever optimises a program need not care whether it is
covered.

The run with coverage needs an environment in which increments can be lowered. Both runs succeed
then, but for one thing that the emission checks: the length of the encoded filenames table, however
it is compressed, has to fit into the header's field of 32 bits. The passes have done their work
even where it does not.

## Main results

* `Module.Follows.functionsWithoutCoverage_eq`: erasing the updates is all there is to erase in a
  module without pending increments.
* `Action.run_transparent`: the two runs.
* `Action.not_runs_prunedProgram`: environments and options with which the run with coverage fails.
-/

namespace SourceCoverage

/-- Whether an instruction updates a counter. -/
def Instruction.isUpdate : Instruction → Bool
  | atomicAdd _ _ => true
  | loadAddStore _ _ => true
  | _ => false

/-- The functions of a module without what coverage leaves in them: the increment intrinsic and
the entry point of the profiling runtime are dropped, and counter updates are erased. -/
def Module.functionsWithoutCoverage (m : Module) : List Function :=
  (m.functions.filter (·.isProgram)).map fun f =>
    { f with body := f.body.map (·.filter (!·.isUpdate)) }

/-- The program's own functions are their own program. -/
theorem programOf_programOf (functions : List Function) :
    programOf (programOf functions) = programOf functions := by
  have hkeep : ∀ f : Function, f.program.isProgram = f.isProgram := fun _ => rfl
  rw [programOf, programOf, filter_map_of_eq hkeep, List.filter_filter, List.map_map]
  simp only [Bool.and_self]
  refine List.map_congr_left fun f _ => ?_
  obtain ⟨name, linkage, body, isIntrinsic⟩ := f
  cases body with
  | none => rfl
  | some body => simp [Function.program, List.filter_filter]

namespace Module

variable {m : Module} {history : History}

/-- **Where no increments are pending**, what is left besides counter updates is the program. -/
theorem Follows.functionsWithoutCoverage_eq (h : m.Follows history)
    (hpending : ∀ name, (history name).pending = []) :
    m.functionsWithoutCoverage = programOf m.functions := by
  rw [Module.functionsWithoutCoverage, programOf]
  refine List.map_congr_left fun f hf => ?_
  obtain ⟨hf, -⟩ := List.mem_filter.1 hf
  cases h.function f hf with
  | declaration _ => rfl
  | @definition name linkage _ _ =>
      have hbody : ((history name).body name).filter (!·.isUpdate)
          = ((history name).body name).filter (·.isProgram) := by
        refine List.filter_congr fun i hi => ?_
        rcases Shape.mem_body_iff.1 hi with ⟨count, hcount, -⟩ | ⟨entry, -, hi⟩ |
          ⟨callee, -, rfl⟩ | rfl
        · rw [hpending name] at hcount
          cases hcount
        · obtain ⟨index, -, rfl⟩ := Shape.mem_updates_iff.1 hi
          cases hatomic : entry.2 <;>
            simp [Shape.update, Instruction.isUpdate, Instruction.isProgram]
        · rfl
        · rfl
      simp only [Function.program, Option.map_some, hbody]
  | increment => rfl
  | runtime => rfl

/-- Declaring the entry point of the profiling runtime is not seen in the program. -/
theorem programOf_withRuntime (m : Module) :
    programOf m.withRuntime.functions = programOf m.functions := by
  rw [withRuntime]
  split
  · rfl
  · have hruntime : ¬Function.isProgram ⟨Symbol.profileRuntime, .externalLinkage, none, false⟩ := by
      decide
    simp [programOf, hruntime]

/-- **Two modules, of which one carries the program that the other one is**, do not differ once
what coverage leaves is taken away, if no increments are pending. -/
theorem Carries.functionsWithoutCoverage_eq {m₀ : Module} (h : m.Carries m₀)
    (hfollows : m.Follows history) (hpending : ∀ name, (history name).pending = []) :
    m.functionsWithoutCoverage = m₀.functionsWithoutCoverage := by
  have hfollows₀ := hfollows.carried h
  calc m.functionsWithoutCoverage
      = programOf m.functions := hfollows.functionsWithoutCoverage_eq hpending
    _ = programOf (programOf m.functions) := (programOf_programOf _).symm
    _ = programOf m₀.functions := by rw [h.functions]
    _ = m₀.functionsWithoutCoverage :=
        (hfollows₀.functionsWithoutCoverage_eq fun _ => rfl).symm

end Module

namespace Action

variable {steps : List BuildStep} {passes : String} {pipeline : Pipeline}

/-- Passes with lowering in front, and the same passes without it on the program that is
carried. -/
theorem effectOf_carried {m m₀ m' : Module} {history : History} (hfollows : m.Follows history)
    (hcarries : m.Carries m₀) {lowering : Lowering} {passes : List Pass}
    (hok : effectOf (.lowerIncrements lowering :: passes) m = .ok m') :
    ∃ m₀', effectOf passes m₀ = .ok m₀' ∧ m'.Carries m₀' := by
  obtain ⟨m₁, history₁, hlower, hfollows₁, -⟩ := hfollows.effect (.lowerIncrements lowering)
  rw [effectOf, hlower] at hok
  exact (hcarries.lower hlower).effectOf hfollows₁ hok

/-- **Coverage is transparent to optimisation.** A program is built with unreserved names, once
with its instrumentations and once without them, and run where increments can be lowered. The run of
the plain program without coverage succeeds; the run of the instrumented one with coverage succeeds
if its filenames table is short enough, in whichever way it is compressed, and is refused for that
reason alone if not. In any case the functions that are left differ only by what coverage leaves. -/
theorem run_transparent (compress : Bytes → Bytes) (capabilities : Capabilities)
    (hlowers : capabilities.loweringPass) (name : String)
    (hsteps : ∀ step ∈ steps, step.Unreserved) (hparse : Pipeline.parse passes = .ok pipeline)
    (options : CoverageOptions) :
    ∃ covered plain,
      (options.Fits compress → ∃ report, runWith compress capabilities ⟨passes, some options⟩
        (build steps (.start name)) = .ok report covered) ∧
      (¬options.Fits compress → ∃ length, runWith compress capabilities ⟨passes, some options⟩
        (build steps (.start name))
          = .error (.coverage (.mappingTooLarge Symbol.coverageMapping length)) covered) ∧
      (∃ report, runWith compress capabilities ⟨passes, none⟩
        (build (steps.filter (!·.isInstrument)) (.start name)) = .ok report plain) ∧
      covered.module.functionsWithoutCoverage = plain.module.functionsWithoutCoverage := by
  obtain ⟨history, hfollows⟩ := follows_build (s := .start name) (.empty name) hsteps
  have hcarries : (build steps (.start name)).module.Carries
      (build (steps.filter (!·.isInstrument)) (.start name)).module :=
    Module.Carries.build ⟨rfl, rfl⟩ (.empty name) hsteps
  have hbuild : ((RunConfig.mk passes (some options)).within capabilities).pipeline = .ok _ :=
    pipeline_coverage_eq_ok_iff.2 ⟨pipeline, hparse, rfl⟩
  obtain ⟨m, history', heffect, hfollows', hshape, hok, hfail⟩ :=
    runWith_spec capabilities hlowers hfollows hbuild
  have hpending : ∀ name, (history' name).pending = [] := by
    intro name
    by_cases hdefines : m.Defines name
    · rw [(hshape name hdefines).2]
      rfl
    · rw [hfollows'.undefined name hdefines]
      rfl
  obtain ⟨plain, hpassed, hcarries'⟩ := effectOf_carried hfollows hcarries heffect
  obtain ⟨report₀, s₀, hrun₀, rfl⟩ :=
    runWith_plain_spec capabilities (pipeline_plain_eq_ok_iff.2 hparse) hpassed
  by_cases hfits : options.Fits compress
  · obtain ⟨report, s, hrun, hcompletes⟩ :=
      hok fun other hother => Option.some.inj hother ▸ hfits
    obtain ⟨hfunctions, -⟩ := hcompletes.covered options rfl
    refine ⟨s, s₀, fun _ => ⟨report, hrun⟩, fun hnot => absurd hfits hnot, ⟨report₀, hrun₀⟩, ?_⟩
    have hsame : programOf s.module.functions = programOf m.functions := by
      rw [hfunctions, Module.programOf_withRuntime]
    exact (hcarries'.congr hsame).functionsWithoutCoverage_eq hcompletes.follows hpending
  · obtain ⟨length, s, hrun, hmodule⟩ := hfail fun hall => hfits (hall options rfl)
    refine ⟨s, s₀, fun hyes => absurd hyes hfits, fun _ => ⟨length, hrun⟩, ⟨report₀, hrun₀⟩, ?_⟩
    rw [hmodule]
    exact hcarries'.functionsWithoutCoverage_eq hfollows' hpending

/-- Both runs of a program succeed under a pipeline that deletes what nothing needs, be the
filenames table compressed or not, and also where updates cannot be atomic. -/
theorem run_transparent_prunedProgram : (∀ step ∈ prunedProgram, step.Unreserved) ∧
    Pipeline.parse "globaldce,verify" = .ok ⟨[.removeDeadSymbols, .verify]⟩ ∧
    ∀ atomicLowering compressing, ∃ covered plain report report₀,
      runWith Zlib.compress ⟨true, atomicLowering, true⟩
        ⟨"globaldce,verify", some ⟨"a.c", true, compressing, .elf⟩⟩
        (build prunedProgram (.start "m")) = .ok report covered ∧
      runWith Zlib.compress ⟨true, atomicLowering, true⟩ ⟨"globaldce,verify", none⟩
        (build (prunedProgram.filter (!·.isInstrument)) (.start "m")) = .ok report₀ plain ∧
      covered.module.functionsWithoutCoverage = plain.module.functionsWithoutCoverage := by
  have hsteps : ∀ step ∈ prunedProgram, step.Unreserved := by decide
  have hparse : Pipeline.parse "globaldce,verify" = .ok ⟨[.removeDeadSymbols, .verify]⟩ := by cbv
  refine ⟨hsteps, hparse, fun atomicLowering compressing => ?_⟩
  let capabilities : Capabilities := ⟨true, atomicLowering, true⟩
  obtain ⟨covered, plain, hcovered, -, ⟨report₀, hplain⟩, hsame⟩ :=
    run_transparent Zlib.compress capabilities rfl "m" hsteps hparse
      ⟨"a.c", true, compressing, .elf⟩
  obtain ⟨report, hcovered⟩ := hcovered (CoverageOptions.fits_short true compressing .elf)
  exact ⟨covered, plain, report, report₀, hcovered, hplain, hsame⟩

/-- Where increments cannot be lowered, or with a path that has as many letters as the header can
count, the run of this program with coverage does not succeed, whatever there is to compress by. -/
theorem not_runs_prunedProgram : (∀ step ∈ prunedProgram, step.Unreserved) ∧
    Pipeline.parse "globaldce,verify" = .ok ⟨[.removeDeadSymbols, .verify]⟩ ∧
    ∀ compress : Bytes → Bytes,
      (¬∃ report covered, runWith compress ⟨true, true, false⟩
        ⟨"globaldce,verify", some ⟨"a.c", true, false, .elf⟩⟩
        (build prunedProgram (.start "m")) = .ok report covered) ∧
      ¬∃ report covered, runWith compress .full
        ⟨"globaldce,verify", some (.repeated UInt32.size)⟩
        (build prunedProgram (.start "m")) = .ok report covered := by
  have hsteps : ∀ step ∈ prunedProgram, step.Unreserved := by decide
  have hparse : Pipeline.parse "globaldce,verify" = .ok ⟨[.removeDeadSymbols, .verify]⟩ := by cbv
  obtain ⟨history, hfollows⟩ := follows_build (s := .start "m") (.empty "m") hsteps
  refine ⟨hsteps, hparse, fun compress => ?_⟩
  have hlong : ¬(CoverageOptions.repeated UInt32.size).Fits compress :=
    CoverageOptions.not_fits_repeated compress (Nat.le_refl UInt32.size)
  exact ⟨not_runs_of_not_loweringPass compress _ _ rfl _,
    not_runs_of_not_fits hfollows hparse hlong⟩

end Action

end SourceCoverage
