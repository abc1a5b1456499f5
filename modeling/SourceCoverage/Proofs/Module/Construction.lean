import Mathlib.Logic.Function.Basic
import SourceCoverage.Proofs.Module.History

/-!
# Construction and History

The operations that build a module, on a module that follows a history: each leads to a module
that follows the history with what the operation did to one function, as long as the names that
the program gives are unreserved.

## Main results

* `Module.Follows.of_history`: references resolve where the history says what they are to.
* `Module.Follows.addFunction`, `Module.Follows.addCall`, `Module.Follows.declareFunction`: what
  programs do.
* `Module.Follows.declareIncrement`, `Module.Follows.putNameVariable`,
  `Module.Follows.insertIncrements`: the steps of an instrumentation.
-/

namespace SourceCoverage

/-- What a symbol describes depends on the history by what was lowered last of its owner. -/
theorem OwnSymbol.Describes.congr {history history' : History} {symbol : OwnSymbol} {g : Global}
    (hlast : ∀ f, symbol.owner = some f →
      (history' f).lowered.head? = (history f).lowered.head?)
    (h : symbol.Describes history g) : symbol.Describes history' g := by
  cases symbol with
  | counters function =>
      obtain ⟨entry, hentry, rfl⟩ := h
      exact ⟨entry, (hlast function rfl).trans hentry, rfl⟩
  | profileData function =>
      obtain ⟨entry, hentry, rfl⟩ := h
      exact ⟨entry, (hlast function rfl).trans hentry, rfl⟩
  | nameVariable function => exact h
  | coverageRecord function => exact h
  | coverageMapping => exact h
  | profileNames => exact h
  | profileRuntimeUser => exact h
  | incrementIntrinsic => exact h
  | profileRuntime => exact h

/-- What a function is depends on the history by its own shape. -/
theorem Function.Follows.congr {history history' : History} {f : Function}
    (hshape : history' f.name = history f.name) (h : f.Follows history) : f.Follows history' := by
  cases h with
  | declaration hunreserved => exact .declaration hunreserved
  | @definition name linkage hunreserved hvalid =>
      have hshape : history' name = history name := hshape
      rw [← hshape]
      exact .definition hunreserved (hshape ▸ hvalid)
  | increment => exact .increment
  | runtime => exact .runtime

/-- A definition with the body of a valid shape follows the history that has this shape for it. -/
theorem Function.Follows.update {history : History} {name : String} {linkage : Linkage}
    {shape : Shape} (hname : Symbol.Unreserved name) (hvalid : shape.Valid) :
    Function.Follows (Function.update history name shape)
      ⟨name, linkage, some (shape.body name), false⟩ := by
  have hshape : Function.update history name shape name = shape := Function.update_self ..
  have hdefinition : Function.Follows (Function.update history name shape)
      ⟨name, linkage, some ((Function.update history name shape name).body name), false⟩ :=
    .definition hname (by rwa [hshape])
  rwa [hshape] at hdefinition

namespace Module.Follows

variable {m : Module} {history : History}

/-! ### References and history -/

/-- While a function has pending increments, the increment intrinsic is declared. -/
theorem incrementIntrinsic_mem (h : m.Follows history) {function : String}
    (hpending : (history function).pending ≠ []) :
    Symbol.incrementIntrinsic ∈ m.functionNames := by
  have hsymbol := h.hasSymbol_of_mem_body (Shape.ne_empty_iff.2 (.inl hpending))
    ((Shape.mem_references_body_iff (h.valid function)).2 (.inl ⟨hpending, .inl rfl⟩))
  refine hsymbol.resolve_left ?_
  exact h.not_mem_globalNames .incrementIntrinsic fun _ => id

/-- The functions that a function calls are there. -/
theorem callee_mem (h : m.Follows history) {function callee : String}
    (hcallee : callee ∈ (history function).callees) : callee ∈ m.functionNames := by
  have hvalid := h.valid function
  have hne : history function ≠ .empty :=
    Shape.ne_empty_iff.2 (.inr (.inr (List.ne_nil_of_mem hcallee)))
  have hsymbol := h.hasSymbol_of_mem_body hne
    ((Shape.mem_references_body_iff hvalid).2 (.inr (.inr hcallee)))
  exact hsymbol.resolve_left (h.not_mem_globalNames_of_unreserved (hvalid.callees callee hcallee))

/-- The counter array of a function with lowered increments is there. -/
theorem counters_mem_globalNames (h : m.Follows history) {function : String}
    (hlowered : (history function).lowered ≠ []) :
    Symbol.counters function ∈ m.globalNames := by
  obtain ⟨entry, rest, hcons⟩ := List.exists_cons_of_ne_nil hlowered
  have hentry : (history function).lowered.head? = some entry := by rw [hcons, List.head?_cons]
  exact List.mem_map_of_mem (h.counters_mem hentry)

/-- The reference to the runtime resolves. -/
theorem profileRuntime_mem (h : m.Follows history)
    (huser : Symbol.profileRuntimeUser ∈ m.globalNames) :
    Symbol.profileRuntime ∈ m.functionNames := by
  obtain ⟨g, hg, hname⟩ := List.mem_map.1 huser
  obtain rfl := h.describes hg .profileRuntimeUser hname
  have hreference := h.resolved Symbol.profileRuntime
    (mem_references_iff.2 (.inr ⟨_, hg, List.mem_singleton_self _⟩))
  refine (hasSymbol_iff.1 hreference).resolve_left ?_
  exact h.not_mem_globalNames .profileRuntime fun _ => id

/-- **References resolve where the history says what they are to.** -/
theorem of_history (functionNames : m.functionNames.Nodup) (globalNames : m.globalNames.Nodup)
    (function : ∀ f ∈ m.functions, f.Follows history)
    (undefined : ∀ name, ¬m.Defines name → history name = .empty)
    (global : ∀ g ∈ m.globals, ∃ symbol : OwnSymbol, symbol.Describes history g)
    (pending : ∀ name, (history name).pending ≠ [] →
      Symbol.nameVariable name ∈ m.globalNames ∧ Symbol.incrementIntrinsic ∈ m.functionNames)
    (lowered : ∀ name, (history name).lowered ≠ [] → Symbol.counters name ∈ m.globalNames)
    (callees : ∀ name, ∀ callee ∈ (history name).callees, callee ∈ m.functionNames)
    (runtime : Symbol.profileRuntimeUser ∈ m.globalNames →
      Symbol.profileRuntime ∈ m.functionNames) : m.Follows history where
  functionNames := functionNames
  globalNames := globalNames
  function := function
  undefined := undefined
  global := global
  resolved := fun name hname => by
    rw [hasSymbol_iff]
    rcases mem_references_iff.1 hname with ⟨f, hf, hname⟩ | ⟨g, hg, hname⟩
    · cases function f hf with
      | declaration _ => cases hname
      | increment => cases hname
      | runtime => cases hname
      | @definition own linkage _ hvalid =>
          rcases (Shape.mem_references_body_iff hvalid).1 hname with ⟨hpending, rfl | rfl⟩ |
            ⟨hlowered, rfl⟩ | hcallee
          · exact .inr (pending own hpending).2
          · exact .inl (pending own hpending).1
          · exact .inl (lowered own hlowered)
          · exact .inr (callees own name hcallee)
    · obtain ⟨symbol, hdescribes⟩ := global g hg
      rcases hdescribes.references hname with ⟨own, rfl, rfl⟩ | ⟨rfl, rfl⟩
      · obtain ⟨entry, hentry, -⟩ := hdescribes
        refine .inl (lowered own fun hnil => ?_)
        rw [hnil] at hentry
        cases hentry
      · exact .inr (runtime (List.mem_map.2 ⟨g, hg, hdescribes.name_eq⟩))

/-! ### Functions -/

/-- A module with one more function follows the history that says nothing of it yet. -/
theorem append (h : m.Follows history) {f : Function} (hfresh : f.name ∉ m.functionNames)
    (hf : f.Follows history) : ({ m with functions := m.functions ++ [f] }).Follows history := by
  have hnames : ({ m with functions := m.functions ++ [f] } : Module).functionNames
      = m.functionNames ++ [f.name] := by simp [Module.functionNames]
  have hkept : ∀ {name}, name ∈ m.functionNames →
      name ∈ ({ m with functions := m.functions ++ [f] } : Module).functionNames := fun hname => by
    rw [hnames]
    exact List.mem_append_left _ hname
  refine of_history ?_ h.globalNames ?_ ?_ h.global
    (fun name hpending => ⟨List.mem_map_of_mem (h.nameVariable_mem hpending),
      hkept (h.incrementIntrinsic_mem hpending)⟩)
    (fun name hlowered => h.counters_mem_globalNames hlowered)
    (fun name callee hcallee => hkept (h.callee_mem hcallee))
    (fun huser => hkept (h.profileRuntime_mem huser))
  · rw [hnames]
    refine List.nodup_append.2 ⟨h.functionNames,
      List.nodup_cons.2 ⟨List.not_mem_nil, List.nodup_nil⟩, ?_⟩
    rintro name hname _ hlast rfl
    exact hfresh (List.mem_singleton.1 hlast ▸ hname)
  · intro g hg
    rcases List.mem_append.1 hg with hg | hg
    · exact h.function g hg
    · exact List.mem_singleton.1 hg ▸ hf
  · intro name hundefined
    refine h.undefined name ?_
    rintro ⟨g, hg, hdefines⟩
    exact hundefined ⟨g, List.mem_append_left _ hg, hdefines⟩

end Module.Follows

namespace Module

variable {m : Module} {history : History} {name : String} {change : Function → Function}

/-- The module with the function of a name changed. -/
def modifyFunction (m : Module) (name : String) (change : Function → Function) : Module :=
  { m with functions := m.functions.map fun f => if f.name = name then change f else f }

/-- Where names of functions are distinct, updating the first one of a name is changing it. -/
theorem updateFirst_eq_modifyFunction (h : m.functionNames.Nodup) :
    { m with functions := updateFirst (·.name = name) change m.functions }
      = m.modifyFunction name change := by
  rw [modifyFunction,
    updateFirst_eq_map (pairwise_of_nodup_key h fun f hf => of_decide_eq_true hf)]
  simp

/-- A change that changes no function of the name changes nothing. -/
theorem modifyFunction_eq_self (h : ∀ f ∈ m.functions, f.name = name → change f = f) :
    m.modifyFunction name change = m := by
  have hid : ∀ f ∈ m.functions, (if f.name = name then change f else f) = id f := by
    intro f hf
    split
    · next hname => exact h f hf hname
    · rfl
  rw [modifyFunction, List.map_congr_left hid, List.map_id]

/-- Looking up a function after a change that keeps names. -/
theorem function?_modifyFunction (hname : ∀ f, (change f).name = f.name) {other : String} :
    (m.modifyFunction name change).function? other
      = (m.function? other).map fun f => if f.name = name then change f else f := by
  rw [function?, function?, modifyFunction, List.find?_map]
  congr 2
  funext f
  by_cases hf : f.name = name
  · rw [Function.comp_apply, if_pos hf, hname]
  · rw [Function.comp_apply, if_neg hf]

/-- A change that keeps the name of a function keeps all names. -/
theorem functionNames_modifyFunction (hname : ∀ f, (change f).name = f.name) :
    (m.modifyFunction name change).functionNames = m.functionNames := by
  rw [functionNames, functionNames, modifyFunction, List.map_map]
  refine List.map_congr_left fun f _ => ?_
  by_cases hf : f.name = name
  · rw [Function.comp_apply, if_pos hf, hname]
  · rw [Function.comp_apply, if_neg hf]

/-- **A function with a body changes its shape**, and the history with it. What was lowered stays
lowered; what the shape refers to anew has to be there. -/
theorem Follows.modifyFunction (h : m.Follows history) {shape : Shape}
    (hname : ∀ f, (change f).name = f.name)
    (hchange : ∀ f ∈ m.functions, f.name = name →
      (change f).Follows (Function.update history name shape) ∧ (change f).body.isSome)
    (hmem : name ∈ m.functionNames) (hlowered : shape.lowered = (history name).lowered)
    (hpending : shape.pending ≠ [] →
      Symbol.nameVariable name ∈ m.globalNames ∧ Symbol.incrementIntrinsic ∈ m.functionNames)
    (hcallees : ∀ callee ∈ shape.callees, callee ∈ m.functionNames) :
    (m.modifyFunction name change).Follows (Function.update history name shape) := by
  have hnames : (m.modifyFunction name change).functionNames = m.functionNames :=
    functionNames_modifyFunction hname
  have hkeep : ∀ other, (Function.update history name shape other).lowered
      = (history other).lowered := by
    intro other
    by_cases hother : other = name
    · rw [hother, Function.update_self, hlowered]
    · rw [Function.update_of_ne hother]
  refine of_history (hnames ▸ h.functionNames) h.globalNames ?_ ?_ ?_ ?_ ?_ ?_ ?_
  · intro g hg
    obtain ⟨f, hf, rfl⟩ := List.mem_map.1 hg
    by_cases hfname : f.name = name
    · rw [if_pos hfname]
      exact (hchange f hf hfname).1
    · rw [if_neg hfname]
      exact (h.function f hf).congr (Function.update_of_ne hfname _ _)
  · intro other hundefined
    by_cases hother : other = name
    · obtain ⟨f, hf, hfname⟩ := List.mem_map.1 hmem
      refine absurd ⟨change f, List.mem_map.2 ⟨f, hf, if_pos hfname⟩, ?_⟩ hundefined
      exact ⟨(hname f).trans (hfname.trans hother.symm), (hchange f hf hfname).2⟩
    · rw [Function.update_of_ne hother]
      refine h.undefined other ?_
      rintro ⟨f, hf, hfname, hbody⟩
      have hkept : f ∈ (m.modifyFunction name change).functions :=
        List.mem_map.2 ⟨f, hf, if_neg (hfname ▸ hother)⟩
      exact hundefined ⟨f, hkept, hfname, hbody⟩
  · intro g hg
    obtain ⟨symbol, hdescribes⟩ := h.global g hg
    exact ⟨symbol, hdescribes.congr fun other _ => by rw [hkeep]⟩
  · intro other hother
    rw [hnames]
    by_cases heq : other = name
    · rw [heq, Function.update_self] at hother
      exact heq ▸ hpending hother
    · rw [Function.update_of_ne heq] at hother
      exact ⟨List.mem_map_of_mem (h.nameVariable_mem hother), h.incrementIntrinsic_mem hother⟩
  · intro other hother
    rw [hkeep] at hother
    exact h.counters_mem_globalNames hother
  · intro other callee hcallee
    rw [hnames]
    by_cases heq : other = name
    · rw [heq, Function.update_self] at hcallee
      exact hcallees callee hcallee
    · rw [Function.update_of_ne heq] at hcallee
      exact h.callee_mem hcallee
  · intro huser
    rw [hnames]
    exact h.profileRuntime_mem huser

/-! ### What programs do -/

namespace Follows

/-- Nothing has been done to a function without a body. -/
theorem history_eq_empty (h : m.Follows history) {f : Function} (hf : f ∈ m.functions)
    (hbody : f.body = none) : history f.name = .empty := by
  refine h.undefined f.name ?_
  rintro ⟨g, hg, hname, hsome⟩
  have hfind := (function?_eq_some_iff h.functionNames).2 ⟨hf, rfl⟩
  rw [(function?_eq_some_iff h.functionNames).2 ⟨hg, hname⟩] at hfind
  obtain rfl := Option.some.inj hfind
  rw [hbody] at hsome
  cases hsome

/-- Defining a function of an unreserved name does nothing to it. -/
theorem addFunction (h : m.Follows history) (hname : Symbol.Unreserved name)
    (linkage : Linkage) : (m.addFunction name linkage).Follows history := by
  rw [Module.addFunction]
  by_cases hhas : m.hasFunction name
  · rw [if_pos hhas, updateFirst_eq_modifyFunction h.functionNames]
    rw [← Function.update_eq_self name history]
    have hmem := hasFunction_iff.1 hhas
    refine h.modifyFunction (fun _ => rfl) ?_ hmem rfl
      (fun hpending => ⟨List.mem_map_of_mem (h.nameVariable_mem hpending),
        h.incrementIntrinsic_mem hpending⟩)
      (fun callee hcallee => h.callee_mem hcallee)
    rintro f hf rfl
    rw [Function.update_eq_self]
    refine ⟨?_, rfl⟩
    cases h.function f hf with
    | @declaration own linkage' hunreserved =>
        have hempty : history own = .empty := h.history_eq_empty hf rfl
        have hdefinition : Function.Follows history
            ⟨own, linkage, some ((history own).body own), false⟩ :=
          .definition hunreserved (hempty ▸ .empty)
        rw [hempty] at hdefinition
        exact hdefinition
    | definition hunreserved hvalid => exact .definition hunreserved hvalid
    | increment => exact absurd hname (OwnSymbol.not_unreserved_name .incrementIntrinsic)
    | runtime => exact absurd hname (OwnSymbol.not_unreserved_name .profileRuntime)
  · rw [if_neg hhas]
    have hfresh : name ∉ m.functionNames := fun hmem => hhas (hasFunction_iff.2 hmem)
    have hempty : history name = .empty := h.undefined name fun ⟨f, hf, hfname, _⟩ =>
      hfresh (List.mem_map.2 ⟨f, hf, hfname⟩)
    have hdefinition : Function.Follows history
        ⟨name, linkage, some ((history name).body name), false⟩ :=
      .definition hname (hempty ▸ .empty)
    rw [hempty] at hdefinition
    exact h.append hfresh hdefinition

/-- Declaring a function of an unreserved name does nothing to it. -/
theorem declareFunction (h : m.Follows history) (hname : Symbol.Unreserved name) {m' : Module}
    (hok : m.declareFunction name = .ok m') : m'.Follows history := by
  obtain ⟨-, rfl⟩ := declareFunction_eq_ok_iff.1 hok
  by_cases hhas : m.hasFunction name
  · rwa [if_pos hhas]
  · rw [if_neg hhas]
    exact h.append (fun hmem => hhas (hasFunction_iff.2 hmem)) (.declaration hname)

end Follows

/-- Which names are those of functions that have a body. -/
theorem isSome_body_iff (h : m.functionNames.Nodup) {name : String} :
    ((m.function? name).bind (·.body)).isSome ↔ m.Defines name := by
  rw [Option.isSome_iff_exists]
  constructor
  · rintro ⟨body, hsome⟩
    obtain ⟨f, hfind, hbody⟩ := Option.bind_eq_some_iff.1 hsome
    obtain ⟨hf, hname⟩ := (function?_eq_some_iff h).1 hfind
    exact ⟨f, hf, hname, Option.isSome_iff_exists.2 ⟨body, hbody⟩⟩
  · rintro ⟨f, hf, hname, hbody⟩
    rw [(function?_eq_some_iff h).2 ⟨hf, hname⟩]
    exact Option.isSome_iff_exists.1 hbody

/-- When a call can be added, and what it does, where functions have distinct names. -/
theorem addCall_eq_ok_iff_defines (h : m.functionNames.Nodup) {caller callee : String}
    {m' : Module} : m.addCall caller callee = .ok m' ↔
      callee ∈ m.functionNames ∧ m.Defines caller ∧ m' = m.modifyFunction caller fun f =>
        { f with body := f.body.map (insertBeforeReturn (.call callee none)) } := by
  rw [addCall_eq_ok_iff, isSome_body_iff h, updateFirst_eq_modifyFunction h]

namespace Follows

/-- A call of an unreserved name is added to the shape of its caller. -/
theorem addCall (h : m.Follows history) {caller callee : String}
    (hname : Symbol.Unreserved callee) {m' : Module} (hok : m.addCall caller callee = .ok m') :
    m'.Follows (Function.update history caller ((history caller).addCall callee)) := by
  obtain ⟨hcallee, ⟨f₀, hf₀, hf₀name, hf₀body⟩, rfl⟩ :=
    (addCall_eq_ok_iff_defines h.functionNames).1 hok
  refine h.modifyFunction (fun _ => rfl) ?_ (List.mem_map.2 ⟨f₀, hf₀, hf₀name⟩) rfl
    (fun hpending => ⟨List.mem_map_of_mem (h.nameVariable_mem hpending),
      h.incrementIntrinsic_mem hpending⟩) ?_
  · rintro f hf rfl
    have hfind := (function?_eq_some_iff h.functionNames).2 ⟨hf₀, hf₀name⟩
    rw [(function?_eq_some_iff h.functionNames).2 ⟨hf, rfl⟩] at hfind
    obtain rfl := Option.some.inj hfind
    obtain ⟨body, hbody⟩ := Option.isSome_iff_exists.1 hf₀body
    obtain ⟨rfl, hunreserved, hvalid, hintrinsic⟩ := h.body_eq hf hbody
    refine ⟨?_, by rw [hbody]; rfl⟩
    rw [hbody, Option.map_some, Shape.body_addCall]
    rw [show f.isIntrinsic = false from hintrinsic]
    exact .update hunreserved (hvalid.addCall hname)
  · intro c hc
    rcases List.mem_append.1 hc with hc | hc
    · exact h.callee_mem hc
    · exact List.mem_singleton.1 hc ▸ hcallee

/-! ### The steps of an instrumentation -/

/-- A variable that a symbol without an owner describes can be put into the module. -/
theorem putVariable (h : m.Follows history) {v : Variable} (symbol : OwnSymbol)
    (hdescribes : symbol.Describes history ⟨v, none⟩)
    (hruntime : symbol = .profileRuntimeUser → Symbol.profileRuntime ∈ m.functionNames) :
    (m.putVariable v).Follows history := by
  have hname : v.name = symbol.name := hdescribes.name_eq
  have howner : m.ownerOf v.name = none := by
    refine ownerOf_eq_none_of_forall h.globalNames fun g hg hgname => ?_
    exact (h.describes hg symbol (hgname.trans hname)).owner_eq.trans hdescribes.owner_eq.symm
  have hkept : ∀ {name}, name ∈ m.globalNames → name ∈ (m.putVariable v).globalNames :=
    fun hmem => mem_globalNames_putVariable.2 (.inl hmem)
  have hnames : (m.putVariable v).functionNames = m.functionNames := functionNames_putVariable
  refine of_history (hnames ▸ h.functionNames) (nodup_globalNames_putVariable h.globalNames)
    ?_ ?_ ?_ ?_ ?_ ?_ ?_
  · rw [functions_putVariable]
    exact h.function
  · intro name hundefined
    refine h.undefined name fun hdefines => hundefined ?_
    rw [Defines, functions_putVariable]
    exact hdefines
  · intro g hg
    rcases (mem_globals_putVariable h.globalNames).1 hg with ⟨hg, -⟩ | rfl
    · exact h.global g hg
    · rw [howner]
      exact ⟨symbol, hdescribes⟩
  · intro name hpending
    rw [hnames]
    exact ⟨hkept (List.mem_map_of_mem (h.nameVariable_mem hpending)),
      h.incrementIntrinsic_mem hpending⟩
  · exact fun name hlowered => hkept (h.counters_mem_globalNames hlowered)
  · rw [hnames]
    exact fun name callee hcallee => h.callee_mem hcallee
  · intro huser
    rw [hnames]
    rcases mem_globalNames_putVariable.1 huser with huser | huser
    · exact h.profileRuntime_mem huser
    · exact hruntime (OwnSymbol.name_inj.1 (hname ▸ huser.symm))

/-- The name variable of a function can be put into the module. -/
theorem putNameVariable (h : m.Follows history) (function : String) :
    (m.putVariable (SourceCoverage.nameVariable function)).Follows history :=
  h.putVariable (.nameVariable function) rfl nofun

end Follows

end Module

end SourceCoverage
