import SourceCoverage.Proofs.Module.Program
import SourceCoverage.Proofs.Pipeline.Passage

/-!
# Passes on the Program in a Module

Whatever a pass does to a module it does to the program that the module carries, as far as the
program is concerned. Lowering is not seen in the program at all. Deletion deletes the same of the
program's functions, because nothing that instrumentation put into the module leads to a function
of the program: a way through the references that ends at an unreserved name has unreserved names
all along.

## Main results

* `Module.Carries.alive_iff`: the same functions of the program are alive.
* `Module.Carries.effect`, `Module.Carries.effectOf`: passes on a module and on its program.
-/

namespace SourceCoverage

/-- Lowering an instruction keeps whether it is the program's own. -/
theorem Instruction.isProgram_lower {lowering : Lowering} {profiled : List ProfiledName}
    (i : Instruction) : (i.lower lowering profiled).isProgram = i.isProgram := by
  rw [Instruction.lower]
  cases hincrement : i.increment? with
  | none => rfl
  | some increment =>
      have hown : i.isProgram = false := by
        cases i with
        | call callee increment => cases increment <;> simp_all [increment?, isProgram]
        | atomicAdd counters index => rfl
        | loadAddStore counters index => rfl
        | ret => cases hincrement
      cases hprofiled : profiledFunction? profiled increment.nameVariable with
      | none => simp only [hprofiled]
      | some function =>
          simp only [hprofiled, hown]
          cases lowering.atomic <;> rfl

/-- Lowering leaves the program's own instructions alone. -/
theorem Instruction.lower_of_isProgram {lowering : Lowering} {profiled : List ProfiledName}
    {i : Instruction} (h : i.isProgram) : i.lower lowering profiled = i := by
  cases i with
  | call callee increment =>
      cases increment with
      | none => rfl
      | some increment => cases h
  | atomicAdd counters index => cases h
  | loadAddStore counters index => cases h
  | ret => rfl

namespace Module

variable {m m₀ m' : Module} {history : History}

namespace Carries

/-! ### Lowering -/

/-- **Lowering is not seen in the program.** -/
theorem lower (h : m.Carries m₀) {lowering : Lowering} (hok : m.lower lowering = .ok m') :
    m'.Carries m₀ := by
  obtain ⟨profiled, hfunctions⟩ := functions_lower hok
  refine h.congr ?_
  have hkeep : ∀ f : Function, Function.isProgram
      { f with body := f.body.map (·.map (·.lower lowering profiled)) } = f.isProgram :=
    fun _ => rfl
  rw [hfunctions, programOf, programOf, filter_map_of_eq hkeep, List.map_map]
  refine List.map_congr_left fun f _ => ?_
  obtain ⟨own, linkage, body, isIntrinsic⟩ := f
  cases body with
  | none => rfl
  | some body =>
      have hbody : (body.map (·.lower lowering profiled)).filter (·.isProgram)
          = body.filter (·.isProgram) := by
        rw [filter_map_of_eq Instruction.isProgram_lower]
        refine (List.map_congr_left fun i hi => ?_).trans (List.map_id _)
        exact Instruction.lower_of_isProgram (List.mem_filter.1 hi).2
      simp only [Function.comp_apply, Function.program, Option.map_some, hbody]

/-- There is nothing to lower in the program. -/
theorem lower_program (h : m.Carries m₀) (lowering : Lowering) : m₀.lower lowering = .ok m₀ := by
  have hnone : m₀.increments = [] := by
    rw [increments, List.flatMap_eq_nil_iff]
    intro f₀ hf₀
    obtain ⟨f, -, -, rfl⟩ := h.mem_functions.1 hf₀
    rw [List.filterMap_eq_nil_iff]
    intro i hi
    rw [Function.instructions, Function.program] at hi
    cases hbody : f.body with
    | none => simp [hbody] at hi
    | some body =>
        rw [hbody] at hi
        have hown := (List.mem_filter.1 hi).2
        cases i with
        | call callee increment =>
            cases increment with
            | none => rfl
            | some increment => cases hown
        | atomicAdd counters index => rfl
        | loadAddStore counters index => rfl
        | ret => rfl
  rw [Module.lower, if_pos hnone]

/-! ### References and roots -/

/-- What a function of the program refers to, among unreserved names. -/
theorem mem_references_program {f : Function} (h : f.Follows history) {name : String}
    (hname : Symbol.Unreserved name) : name ∈ f.program.references ↔ name ∈ f.references := by
  cases h with
  | declaration _ => rfl
  | @definition own linkage _ hvalid =>
      have hbody : Function.references
          (Function.program ⟨own, linkage, some ((history own).body own), false⟩)
          = (({ callees := (history own).callees } : Shape).body own).flatMap (·.references) := by
        rw [← Shape.filter_isProgram_body]
        rfl
      rw [hbody, Shape.mem_references_body_iff hvalid.program]
      refine Iff.trans ?_ (Shape.mem_references_body_iff hvalid).symm
      constructor
      · rintro (⟨hpending, -⟩ | ⟨hlowered, -⟩ | hcallee)
        · exact absurd rfl hpending
        · exact absurd rfl hlowered
        · exact .inr (.inr hcallee)
      · rintro (⟨-, rfl | rfl⟩ | ⟨-, rfl⟩ | hcallee)
        · exact absurd hname (OwnSymbol.not_unreserved_name .incrementIntrinsic)
        · exact absurd hname (OwnSymbol.not_unreserved_name (.nameVariable own))
        · exact absurd hname (OwnSymbol.not_unreserved_name (.counters own))
        · exact .inr (.inr hcallee)
  | increment => rfl
  | runtime => rfl

/-- No value of a global variable refers to an unreserved name. -/
theorem not_mem_value_references (hfollows : m.Follows history) {g : Global} (hg : g ∈ m.globals)
    {name : String} (hname : Symbol.Unreserved name) : name ∉ g.definition.value.references := by
  intro hmem
  obtain ⟨symbol, hdescribes⟩ := hfollows.global g hg
  rcases hdescribes.references hmem with ⟨own, -, rfl⟩ | ⟨-, rfl⟩
  · exact OwnSymbol.not_unreserved_name (.counters own) hname
  · exact OwnSymbol.not_unreserved_name .profileRuntime hname

/-- A function that refers to something is the program's own. -/
theorem isProgram_of_mem_references {f : Function} (h : f.Follows history) {name : String}
    (hmem : name ∈ f.references) : f.isProgram ∧ Symbol.Unreserved f.name := by
  cases h with
  | declaration _ => cases hmem
  | definition hunreserved _ => exact ⟨Function.isProgram_of_unreserved hunreserved, hunreserved⟩
  | increment => cases hmem
  | runtime => cases hmem

/-- The program refers to the same unreserved names as the module. -/
theorem mem_references_iff (h : m.Carries m₀) (hfollows : m.Follows history) {name : String}
    (hname : Symbol.Unreserved name) : name ∈ m₀.references ↔ name ∈ m.references := by
  rw [Module.mem_references_iff, Module.mem_references_iff, h.globals]
  constructor
  · rintro (⟨f₀, hf₀, hmem⟩ | ⟨g, hg, -⟩)
    · obtain ⟨f, hf, -, rfl⟩ := h.mem_functions.1 hf₀
      exact .inl ⟨f, hf, (mem_references_program (hfollows.function f hf) hname).1 hmem⟩
    · cases hg
  · rintro (⟨f, hf, hmem⟩ | ⟨g, hg, hmem⟩)
    · have hf' := hfollows.function f hf
      have hprogram := h.mem_functions.2 ⟨f, hf, (isProgram_of_mem_references hf' hmem).1, rfl⟩
      exact .inl ⟨f.program, hprogram, (mem_references_program hf' hname).2 hmem⟩
    · exact absurd hmem (not_mem_value_references hfollows hg hname)

/-- What needs an unreserved name is unreserved itself, and needs it in the program. -/
theorem needs_program (h : m.Carries m₀) (hfollows : m.Follows history) {source target : String}
    (hneeds : m.Needs source target) (htarget : Symbol.Unreserved target) :
    Symbol.Unreserved source ∧ m₀.Needs source target := by
  cases hneeds with
  | @body f _ hf hmem =>
      have hf' := hfollows.function f hf
      obtain ⟨hprogram, hunreserved⟩ := isProgram_of_mem_references hf' hmem
      exact ⟨hunreserved, .body (f := f.program) (h.mem_functions.2 ⟨f, hf, hprogram, rfl⟩)
        ((mem_references_program hf' htarget).2 hmem)⟩
  | value hg hmem => exact absurd hmem (not_mem_value_references hfollows hg htarget)
  | @owned g _ hg _ =>
      exact absurd (List.mem_map_of_mem hg) (hfollows.not_mem_globalNames_of_unreserved htarget)

/-- What is needed in the program is needed in the module. -/
theorem needs_of_program (h : m.Carries m₀) (hfollows : m.Follows history)
    {source target : String} (hneeds : m₀.Needs source target) : m.Needs source target := by
  cases hneeds with
  | @body f₀ _ hf₀ hmem =>
      obtain ⟨f, hf, hprogram, rfl⟩ := h.mem_functions.1 hf₀
      have htarget : Symbol.Unreserved target := by
        rcases (hfollows.carried h).mem_references hf₀ hmem with ⟨hpending, -⟩ | ⟨hlowered, -⟩ |
          ⟨-, hunreserved⟩
        · exact absurd rfl hpending
        · exact absurd rfl hlowered
        · exact hunreserved
      exact .body (f := f) hf
        ((mem_references_program (hfollows.function f hf) htarget).1 hmem)
  | value hg _ =>
      rw [h.globals] at hg
      cases hg
  | owned hg _ =>
      rw [h.globals] at hg
      cases hg

/-- The roots of the program are those of the module that have unreserved names. -/
theorem mem_roots_iff (h : m.Carries m₀) (hfollows : m.Follows history) {name : String} :
    name ∈ m₀.roots ↔ name ∈ m.roots ∧ Symbol.Unreserved name := by
  rw [roots, roots, h.globals]
  simp only [List.mem_append, List.mem_map, List.mem_filter]
  constructor
  · rintro (⟨f₀, ⟨hf₀, hroot⟩, rfl⟩ | ⟨g, ⟨hg, -⟩, -⟩)
    · obtain ⟨f, hf, hprogram, rfl⟩ := h.mem_functions.1 hf₀
      refine ⟨.inl ⟨f, ⟨hf, ?_⟩, rfl⟩, ((hfollows.function f hf).program hprogram).2⟩
      simpa [Function.program, Function.isDeclaration] using hroot
    · cases hg
  · rintro ⟨⟨f, ⟨hf, hroot⟩, rfl⟩ | ⟨g, ⟨hg, -⟩, rfl⟩, hunreserved⟩
    · refine .inl ⟨f.program, ⟨h.mem_functions.2
        ⟨f, hf, Function.isProgram_of_unreserved hunreserved, rfl⟩, ?_⟩, rfl⟩
      simpa [Function.program, Function.isDeclaration] using hroot
    · exact absurd (List.mem_map_of_mem hg) (hfollows.not_mem_globalNames_of_unreserved hunreserved)

/-- **The same functions of the program are alive** in the module and in the program itself. -/
theorem alive_iff (h : m.Carries m₀) (hfollows : m.Follows history) {name : String}
    (hname : Symbol.Unreserved name) : m₀.Alive name ↔ m.Alive name := by
  constructor
  · intro halive
    refine halive.induction (fun root hroot => ?_) fun source target hsource hneeds => ?_
    · exact .root ((h.mem_roots_iff hfollows).1 hroot).1
    · exact hsource.needs (h.needs_of_program hfollows hneeds)
  · intro halive
    refine halive.induction (P := fun name => Symbol.Unreserved name → m₀.Alive name)
      (fun root hroot hunreserved => ?_) (fun source target hsource hneeds hunreserved => ?_) hname
    · exact .root ((h.mem_roots_iff hfollows).2 ⟨hroot, hunreserved⟩)
    · obtain ⟨hsource', hneeds₀⟩ := h.needs_program hfollows hneeds hunreserved
      exact (hsource hsource').needs hneeds₀

/-! ### Deletion -/

/-- Choosing among functions in the module and in the program alike. -/
theorem filter (h : m.Carries m₀) (p p₀ : Function → Bool)
    (hagree : ∀ f ∈ m.functions, f.isProgram → p₀ f.program = p f) :
    m₀.functions.filter p₀ = programOf (m.functions.filter p) := by
  have hcommute : (m.functions.filter p).filter (·.isProgram)
      = (m.functions.filter (·.isProgram)).filter p := by
    rw [List.filter_filter, List.filter_filter]
    exact List.filter_congr fun f _ => Bool.and_comm ..
  rw [h.functions, programOf, programOf, hcommute, List.filter_map]
  refine congrArg _ (List.filter_congr fun f hmem => ?_)
  obtain ⟨hf, hprogram⟩ := List.mem_filter.1 hmem
  exact hagree f hf hprogram

/-- **Deleting the dead symbols** deletes the same in the program. -/
theorem withoutDead (h : m.Carries m₀) (hfollows : m.Follows history) :
    m.withoutDead.Carries m₀.withoutDead := by
  have hlive : ∀ f ∈ m.functions, f.isProgram →
      decide (f.program.name ∈ m₀.liveSymbols m₀.referenceGraph)
        = decide (f.name ∈ m.liveSymbols m.referenceGraph) := by
    intro f hf hprogram
    have hunreserved := ((hfollows.function f hf).program hprogram).2
    rw [decide_eq_decide, mem_liveSymbols_iff (hfollows.carried h).unambiguous,
      mem_liveSymbols_iff hfollows.unambiguous]
    exact h.alive_iff hfollows hunreserved
  refine ⟨?_, ?_⟩
  · exact h.filter (·.name ∈ m.liveSymbols m.referenceGraph)
      (·.name ∈ m₀.liveSymbols m₀.referenceGraph) hlive
  · rw [Module.withoutDead, restrict, h.globals]
    rfl

/-- **Stripping declarations** strips the same from the program. -/
theorem stripDeadPrototypes (h : m.Carries m₀) (hfollows : m.Follows history) :
    m.stripDeadPrototypes.Carries m₀.stripDeadPrototypes := by
  have hkept : ∀ f ∈ m.functions, f.isProgram →
      (!f.program.isDeclaration || decide (f.program.name ∈ m₀.references))
        = (!f.isDeclaration || decide (f.name ∈ m.references)) := by
    intro f hf hprogram
    have hunreserved := ((hfollows.function f hf).program hprogram).2
    have hdeclaration : f.program.isDeclaration = f.isDeclaration := by
      simp [Function.program, Function.isDeclaration]
    have hreferences : (f.program.name ∈ m₀.references) = (f.name ∈ m.references) :=
      propext (h.mem_references_iff hfollows hunreserved)
    simp only [hdeclaration, hreferences]
  refine ⟨?_, h.globals⟩
  exact h.filter (fun f => !f.isDeclaration || f.name ∈ m.references)
    (fun f => !f.isDeclaration || f.name ∈ m₀.references) hkept

/-! ### Passes -/

/-- **A pass on a module and on the program that it carries.** -/
theorem effect (h : m.Carries m₀) (hfollows : m.Follows history) {pass : Pass}
    (hok : pass.effect m = .ok m') : ∃ m₀', pass.effect m₀ = .ok m₀' ∧ m'.Carries m₀' := by
  have hdelete (hok : Except.ok (ε := PipelineError) m.withoutDead.stripDeadPrototypes = .ok m') :
      ∃ m₀', Except.ok (ε := PipelineError) m₀.withoutDead.stripDeadPrototypes = .ok m₀' ∧
        m'.Carries m₀' := by
    obtain rfl := Except.ok.inj hok
    exact ⟨_, rfl, (h.withoutDead hfollows).stripDeadPrototypes hfollows.withoutDead⟩
  have hidle (hok : Except.ok (ε := PipelineError) m = .ok m') :
      ∃ m₀', Except.ok (ε := PipelineError) m₀ = .ok m₀' ∧ m'.Carries m₀' :=
    ⟨m₀, rfl, Except.ok.inj hok ▸ h⟩
  cases pass with
  | lowerIncrements lowering => exact ⟨m₀, h.lower_program lowering, h.lower hok⟩
  | removeDeadSymbols =>
      obtain rfl := Except.ok.inj hok
      exact ⟨_, rfl, h.withoutDead hfollows⟩
  | stripDeadPrototypes =>
      obtain rfl := Except.ok.inj hok
      exact ⟨_, rfl, h.stripDeadPrototypes hfollows⟩
  | verify =>
      have hfollows₀ := hfollows.carried h
      rw [Pass.effect, (offence?_eq_none_iff hfollows.unambiguous).2 hfollows.wellFormed] at hok
      refine ⟨m₀, ?_, Except.ok.inj hok ▸ h⟩
      rw [Pass.effect, (offence?_eq_none_iff hfollows₀.unambiguous).2 hfollows₀.wellFormed]
  | noOp => exact hidle hok
  | optimize level =>
      cases level with
      | O0 => exact hidle hok
      | O1 => exact hdelete hok
      | O2 => exact hdelete hok
      | O3 => exact hdelete hok
      | Os => exact hdelete hok
      | Oz => exact hdelete hok

/-- **A run of passes on a module and on the program that it carries.** -/
theorem effectOf (h : m.Carries m₀) (hfollows : m.Follows history) {passes : List Pass}
    (hok : effectOf passes m = .ok m') :
    ∃ m₀', SourceCoverage.effectOf passes m₀ = .ok m₀' ∧ m'.Carries m₀' := by
  induction passes generalizing m m₀ history with
  | nil => exact ⟨m₀, rfl, Except.ok.inj hok ▸ h⟩
  | cons pass passes ih =>
      obtain ⟨m₁, history₁, heffect, hfollows₁, -⟩ := hfollows.effect pass
      rw [SourceCoverage.effectOf, heffect] at hok
      obtain ⟨n₁, heffect₀, hcarries₁⟩ := h.effect hfollows heffect
      obtain ⟨m₀', hrest, hcarries'⟩ := ih hcarries₁ hfollows₁ hok
      refine ⟨m₀', ?_, hcarries'⟩
      rw [SourceCoverage.effectOf, heffect₀]
      exact hrest

end Carries

end Module

end SourceCoverage
