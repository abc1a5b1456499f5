import SourceCoverage.Emission
import SourceCoverage.Proofs.Module.Shape
import SourceCoverage.Proofs.Module.Updating
import SourceCoverage.Proofs.Pipeline.Liveness

/-!
# The History of a Module

The shapes of all functions together are the *history* of a module. It determines the bodies of
the functions and which global variables of instrumentation there may be. A module *follows* a
history if it is as the history says and every reference in it resolves. Building, lowering,
deleting and emitting all lead from a module that follows a history to one that does, as long as
the program keeps to unreserved names.

## Main results

* `Module.Follows.unambiguous`: a module that follows a history has no ambiguous names.
* `Module.Follows.describes`: what a name of instrumentation stands for in such a module.
* `Module.Follows.counters_mem`: every function with lowered increments has its counter array.
-/

namespace SourceCoverage

/-- The shapes of all functions. -/
abbrev History := String → Shape

/-- Whether a function is as its shape says, or one of the two that instrumentation declares. -/
inductive Function.Follows (history : History) : Function → Prop
  | declaration {name : String} {linkage : Linkage} :
      Symbol.Unreserved name → Follows history ⟨name, linkage, none, false⟩
  | definition {name : String} {linkage : Linkage} :
      Symbol.Unreserved name → (history name).Valid →
      Follows history ⟨name, linkage, some ((history name).body name), false⟩
  | increment : Follows history ⟨Symbol.incrementIntrinsic, .externalLinkage, none, true⟩
  | runtime : Follows history ⟨Symbol.profileRuntime, .externalLinkage, none, false⟩

namespace OwnSymbol

variable {history : History} {symbol : OwnSymbol} {g : Global}

/-- The global variable that a symbol of instrumentation stands for, as the history says. The
counter array of a function is as large as the latest lowering found its first increment to
demand. -/
def Describes (history : History) : OwnSymbol → Global → Prop
  | counters function, g => ∃ entry, (history function).lowered.head? = some entry ∧
      g = ⟨counterArray function entry.1, some function⟩
  | profileData function, g => ∃ entry, (history function).lowered.head? = some entry ∧
      g = ⟨profileDataRecord function (functionHash (utf8 function)) entry.1, some function⟩
  | nameVariable function, g => g = ⟨SourceCoverage.nameVariable function, none⟩
  | coverageRecord function, g => ∃ options record,
      g = ⟨recordVariable options function record, none⟩
  | coverageMapping, g => ∃ options header filenames,
      g = ⟨headerVariable options header filenames, none⟩
  | profileNames, g => ∃ chunks, g = ⟨namesVariable chunks, none⟩
  | profileRuntimeUser, g => g = ⟨runtimeUserVariable, none⟩
  | incrementIntrinsic, _ => False
  | profileRuntime, _ => False

/-- A symbol describes global variables of its own name only. -/
theorem Describes.name_eq (h : symbol.Describes history g) : g.name = symbol.name := by
  cases symbol with
  | counters function =>
      obtain ⟨entry, -, rfl⟩ := h
      rfl
  | profileData function =>
      obtain ⟨entry, -, rfl⟩ := h
      rfl
  | nameVariable function =>
      obtain rfl := h
      rfl
  | coverageRecord function =>
      obtain ⟨options, record, rfl⟩ := h
      rfl
  | coverageMapping =>
      obtain ⟨options, header, filenames, rfl⟩ := h
      rfl
  | profileNames =>
      obtain ⟨chunks, rfl⟩ := h
      rfl
  | profileRuntimeUser =>
      obtain rfl := h
      rfl
  | incrementIntrinsic => exact h.elim
  | profileRuntime => exact h.elim

/-- The values of these variables refer to nothing, but for the profile data record, which
refers to the counter array, and the reference to the runtime. -/
theorem Describes.references (h : symbol.Describes history g) {name : String}
    (hname : name ∈ g.definition.value.references) :
    (∃ function, symbol = .profileData function ∧ name = Symbol.counters function) ∨
      symbol = .profileRuntimeUser ∧ name = Symbol.profileRuntime := by
  cases symbol with
  | counters function =>
      obtain ⟨entry, -, rfl⟩ := h
      cases hname
  | profileData function =>
      obtain ⟨entry, -, rfl⟩ := h
      refine .inl ⟨function, rfl, ?_⟩
      simpa [profileDataRecord, Constant.references, Constant.referencesOfAll] using hname
  | nameVariable function =>
      obtain rfl := h
      cases hname
  | coverageRecord function =>
      obtain ⟨options, record, rfl⟩ := h
      cases hname
  | coverageMapping =>
      obtain ⟨options, header, filenames, rfl⟩ := h
      simp [headerVariable, TableHeader.toConstant, Constant.references,
        Constant.referencesOfAll] at hname
  | profileNames =>
      obtain ⟨chunks, rfl⟩ := h
      cases hname
  | profileRuntimeUser =>
      obtain rfl := h
      exact .inr ⟨rfl, List.mem_singleton.1 hname⟩
  | incrementIntrinsic => exact h.elim
  | profileRuntime => exact h.elim

/-- The function that a symbol of instrumentation lives and dies with. -/
def owner : OwnSymbol → Option String
  | counters function => some function
  | profileData function => some function
  | _ => none

/-- The variables of a symbol have its owner. -/
theorem Describes.owner_eq (h : symbol.Describes history g) : g.owner = symbol.owner := by
  cases symbol with
  | counters function =>
      obtain ⟨entry, -, rfl⟩ := h
      rfl
  | profileData function =>
      obtain ⟨entry, -, rfl⟩ := h
      rfl
  | nameVariable function =>
      obtain rfl := h
      rfl
  | coverageRecord function =>
      obtain ⟨options, record, rfl⟩ := h
      rfl
  | coverageMapping =>
      obtain ⟨options, header, filenames, rfl⟩ := h
      rfl
  | profileNames =>
      obtain ⟨chunks, rfl⟩ := h
      rfl
  | profileRuntimeUser =>
      obtain rfl := h
      rfl
  | incrementIntrinsic => exact h.elim
  | profileRuntime => exact h.elim

/-- The owner of a variable has lowered increments. -/
theorem Describes.lowered_ne_nil (h : symbol.Describes history g) {function : String}
    (howner : symbol.owner = some function) : (history function).lowered ≠ [] := by
  intro hnil
  cases symbol with
  | counters own =>
      obtain ⟨entry, hentry, -⟩ := h
      obtain rfl := Option.some.inj howner
      rw [hnil] at hentry
      cases hentry
  | profileData own =>
      obtain ⟨entry, hentry, -⟩ := h
      obtain rfl := Option.some.inj howner
      rw [hnil] at hentry
      cases hentry
  | _ => cases howner

end OwnSymbol

namespace Module

/-- Whether a module has a function of a name with a body. -/
def Defines (m : Module) (name : String) : Prop :=
  ∃ f ∈ m.functions, f.name = name ∧ f.body.isSome

/-- A function is defined exactly if there is a definition of its name. -/
theorem any_definesFunction_iff {m : Module} {name : String} :
    m.functions.any (definesFunction name) ↔ m.Defines name := by
  simp [List.any_eq_true, definesFunction, Defines]

/-- What is defined is found by looking. -/
instance (m : Module) (name : String) : Decidable (m.Defines name) :=
  decidable_of_iff _ any_definesFunction_iff

/-- Whether a module is as a history says: names of functions and of global variables are
distinct, functions have the bodies of their shapes, only defined functions have a shape, global
variables are those of instrumentation, and every reference resolves. -/
structure Follows (m : Module) (history : History) : Prop where
  functionNames : m.functionNames.Nodup
  globalNames : m.globalNames.Nodup
  function : ∀ f ∈ m.functions, f.Follows history
  undefined : ∀ name, ¬m.Defines name → history name = .empty
  global : ∀ g ∈ m.globals, ∃ symbol : OwnSymbol, symbol.Describes history g
  resolved : m.Resolved

namespace Follows

variable {m : Module} {history : History}

/-- A new module follows the history in which nothing has been done. -/
theorem empty (name : String) : (Module.empty name).Follows fun _ => .empty where
  functionNames := List.nodup_nil
  globalNames := List.nodup_nil
  function := nofun
  undefined := fun _ _ => rfl
  global := nofun
  resolved := nofun

/-- A function is unreserved, or one of the two that instrumentation declares. -/
theorem function_name (h : m.Follows history) {name : String} (hname : name ∈ m.functionNames) :
    Symbol.Unreserved name ∨ name = Symbol.incrementIntrinsic ∨ name = Symbol.profileRuntime := by
  obtain ⟨f, hf, rfl⟩ := List.mem_map.1 hname
  cases h.function f hf with
  | declaration hunreserved => exact .inl hunreserved
  | definition hunreserved _ => exact .inl hunreserved
  | increment => exact .inr (.inl rfl)
  | runtime => exact .inr (.inr rfl)

/-- A global variable of a symbol's name is the one that the symbol describes. -/
theorem describes (h : m.Follows history) {g : Global} (hg : g ∈ m.globals) (symbol : OwnSymbol)
    (hname : g.name = symbol.name) : symbol.Describes history g := by
  obtain ⟨symbol', hdescribes⟩ := h.global g hg
  obtain rfl := OwnSymbol.name_inj.1 (hdescribes.name_eq.symm.trans hname)
  exact hdescribes

/-- A symbol that describes nothing is the name of no global variable. -/
theorem not_mem_globalNames (h : m.Follows history) (symbol : OwnSymbol)
    (hnone : ∀ g, ¬symbol.Describes history g) : symbol.name ∉ m.globalNames := by
  intro hmem
  obtain ⟨g, hg, hname⟩ := List.mem_map.1 hmem
  exact hnone g (h.describes hg symbol hname)

/-- A global variable does not have an unreserved name. -/
theorem not_mem_globalNames_of_unreserved (h : m.Follows history) {name : String}
    (hname : Symbol.Unreserved name) : name ∉ m.globalNames := by
  intro hmem
  obtain ⟨g, hg, rfl⟩ := List.mem_map.1 hmem
  obtain ⟨symbol, hdescribes⟩ := h.global g hg
  exact OwnSymbol.ne_name_of_unreserved hname symbol hdescribes.name_eq

/-- **A module that follows a history has no ambiguous names.** -/
theorem unambiguous (h : m.Follows history) : m.Unambiguous where
  functions := h.functionNames
  globals := h.globalNames
  disjoint := fun name hname => by
    rcases h.function_name hname with hunreserved | rfl | rfl
    · exact h.not_mem_globalNames_of_unreserved hunreserved
    · exact h.not_mem_globalNames .incrementIntrinsic fun _ => id
    · exact h.not_mem_globalNames .profileRuntime fun _ => id

/-- A symbol of instrumentation, but for those two, is not the name of a function. -/
theorem not_mem_functionNames (h : m.Follows history) (symbol : OwnSymbol)
    (hincrement : symbol ≠ .incrementIntrinsic) (hruntime : symbol ≠ .profileRuntime) :
    symbol.name ∉ m.functionNames := by
  intro hmem
  rcases h.function_name hmem with hunreserved | heq | heq
  · exact symbol.not_unreserved_name hunreserved
  · exact hincrement (OwnSymbol.name_inj (b := .incrementIntrinsic).1 heq)
  · exact hruntime (OwnSymbol.name_inj (b := .profileRuntime).1 heq)

/-- A function with a body has the one of its shape. -/
theorem body_eq (h : m.Follows history) {f : Function} (hf : f ∈ m.functions)
    {body : List Instruction} (hbody : f.body = some body) :
    body = (history f.name).body f.name ∧ Symbol.Unreserved f.name ∧ (history f.name).Valid ∧
      f.isIntrinsic = false := by
  cases h.function f hf with
  | declaration _ => cases hbody
  | definition hunreserved hvalid =>
      exact ⟨(Option.some.inj hbody).symm, hunreserved, hvalid, rfl⟩
  | increment => cases hbody
  | runtime => cases hbody

/-- A function to which something has been done is defined, with the body of its shape. -/
theorem exists_definition (h : m.Follows history) {name : String}
    (hne : history name ≠ .empty) : ∃ f ∈ m.functions, f.name = name ∧
      f.body = some ((history name).body name) := by
  have hdefines : m.Defines name := Classical.byContradiction fun hnot =>
    hne (h.undefined name hnot)
  obtain ⟨f, hf, rfl, hsome⟩ := hdefines
  obtain ⟨body, hbody⟩ := Option.isSome_iff_exists.1 hsome
  obtain ⟨rfl, -⟩ := h.body_eq hf hbody
  exact ⟨f, hf, rfl, hbody⟩

/-- Every shape in the history is valid. -/
theorem valid (h : m.Follows history) (name : String) : (history name).Valid := by
  by_cases hempty : history name = .empty
  · rw [hempty]
    exact .empty
  · obtain ⟨f, hf, rfl, hbody⟩ := h.exists_definition hempty
    obtain ⟨-, -, hvalid, -⟩ := h.body_eq hf hbody
    exact hvalid

/-- What the functions refer to. -/
theorem mem_references (h : m.Follows history) {f : Function} (hf : f ∈ m.functions)
    {name : String} (hname : name ∈ f.references) :
    ((history f.name).pending ≠ [] ∧ (name = Symbol.incrementIntrinsic ∨
      name = Symbol.nameVariable f.name)) ∨
    ((history f.name).lowered ≠ [] ∧ name = Symbol.counters f.name) ∨
      name ∈ (history f.name).callees ∧ Symbol.Unreserved name := by
  rw [Function.references, Function.instructions] at hname
  cases hbody : f.body with
  | none =>
      rw [hbody] at hname
      cases hname
  | some body =>
      rw [hbody] at hname
      obtain ⟨rfl, -, hvalid, -⟩ := h.body_eq hf hbody
      rcases (Shape.mem_references_body_iff hvalid).1 hname with hpending | hlowered | hcallee
      · exact .inl hpending
      · exact .inr (.inl hlowered)
      · exact .inr (.inr ⟨hcallee, hvalid.callees name hcallee⟩)

/-- What the body of a shape refers to is a symbol of the module. -/
theorem hasSymbol_of_mem_body (h : m.Follows history) {function name : String}
    (hne : history function ≠ .empty)
    (hname : name ∈ ((history function).body function).flatMap (·.references)) :
    name ∈ m.globalNames ∨ name ∈ m.functionNames := by
  obtain ⟨f, hf, rfl, hbody⟩ := h.exists_definition hne
  refine hasSymbol_iff.1 (h.resolved name (mem_references_iff.2 (.inl ⟨f, hf, ?_⟩)))
  rw [Function.references, Function.instructions, hbody]
  exact hname

/-- **Every function with lowered increments has its counter array.** -/
theorem counters_mem (h : m.Follows history) {function : String} {entry : UInt32 × Bool}
    (hentry : (history function).lowered.head? = some entry) :
    ⟨counterArray function entry.1, some function⟩ ∈ m.globals := by
  have hlowered : (history function).lowered ≠ [] := fun hnil => by
    rw [hnil] at hentry
    cases hentry
  have hsymbol := h.hasSymbol_of_mem_body (Shape.ne_empty_iff.2 (.inr (.inl hlowered)))
    ((Shape.mem_references_body_iff (h.valid function)).2 (.inr (.inl ⟨hlowered, rfl⟩)))
  rcases hsymbol with hglobal | hfunction
  · obtain ⟨g, hg, hname⟩ := List.mem_map.1 hglobal
    obtain ⟨entry', hentry', rfl⟩ := h.describes hg (.counters function) hname
    obtain rfl := Option.some.inj (hentry.symm.trans hentry')
    exact hg
  · exact absurd hfunction (h.not_mem_functionNames (.counters function) nofun nofun)

/-- While a function has pending increments, its name variable is there. -/
theorem nameVariable_mem (h : m.Follows history) {function : String}
    (hpending : (history function).pending ≠ []) :
    ⟨SourceCoverage.nameVariable function, none⟩ ∈ m.globals := by
  have hsymbol := h.hasSymbol_of_mem_body (Shape.ne_empty_iff.2 (.inl hpending))
    ((Shape.mem_references_body_iff (h.valid function)).2 (.inl ⟨hpending, .inr rfl⟩))
  rcases hsymbol with hglobal | hfunction
  · obtain ⟨g, hg, hname⟩ := List.mem_map.1 hglobal
    obtain rfl := h.describes hg (.nameVariable function) hname
    exact hg
  · exact absurd hfunction (h.not_mem_functionNames (.nameVariable function) nofun nofun)

/-- The name variable of a function holds its name. -/
theorem bytes?_nameVariable (h : m.Follows history) {function : String}
    (hmem : Symbol.nameVariable function ∈ m.globalNames) :
    m.bytes? (Symbol.nameVariable function) = some (utf8 function) := by
  obtain ⟨g, hg, hname⟩ := List.mem_map.1 hmem
  rw [bytes?, (global?_eq_some_iff h.globalNames).2 ⟨hg, hname⟩]
  obtain rfl := h.describes hg (.nameVariable function) hname
  rfl

/-- While a function has pending increments, the increment intrinsic is declared. -/
theorem hasIntrinsic (h : m.Follows history)
    (hmem : Symbol.incrementIntrinsic ∈ m.functionNames) :
    m.hasIntrinsic Symbol.incrementIntrinsic := by
  obtain ⟨f, hf, hname⟩ := List.mem_map.1 hmem
  rw [Module.hasIntrinsic, (function?_eq_some_iff h.functionNames).2 ⟨hf, hname⟩, Option.any_some]
  cases h.function f hf with
  | declaration hunreserved =>
      exact absurd hname (OwnSymbol.ne_name_of_unreserved hunreserved .incrementIntrinsic)
  | definition hunreserved _ =>
      exact absurd hname (OwnSymbol.ne_name_of_unreserved hunreserved .incrementIntrinsic)
  | increment => rfl
  | runtime =>
      cases (OwnSymbol.name_inj (a := .profileRuntime) (b := .incrementIntrinsic)).1 hname

end Follows

end Module

end SourceCoverage
