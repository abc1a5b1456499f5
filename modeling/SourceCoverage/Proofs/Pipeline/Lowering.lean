import Mathlib.Data.List.Nodup
import SourceCoverage.Proofs.Pipeline.Effects
import SourceCoverage.Proofs.Pipeline.Uses

/-!
# Lowering and History

Lowering a module that follows a history cannot fail, and it leads to a module that follows the
history in which all that was pending is lowered. The pass works in three steps: it makes a
counter array and a profile data record for every function with pending increments, rewrites the
bodies, and folds the name variables into one. Between the first step and the second the module
follows no history; what is known of it then is that its global variables are those it had before
or *fresh*, which is to say as the history will want them.

## Main results

* `Module.profileAll_spec`: the first step makes what is fresh, and nothing else.
* `Module.Follows.lower`: lowering in the history.
-/

namespace SourceCoverage

/-- The history with everything that is pending lowered. -/
def History.lower (history : History) (atomic : Bool) : History :=
  fun name => (history name).lower atomic

/-- The function that a use is of, by the name of the variable that it refers to. -/
def Increment.profiled (use : Increment) : ProfiledName :=
  ⟨use.nameVariable, (Symbol.after? "__profn_" use.nameVariable).getD ""⟩

namespace Module

variable {m m' m'' : Module} {history : History} {function : String} {use : Increment}

/-! ### What is fresh -/

/-- A global variable that the latest pending instrumentation of a function demands. -/
inductive Fresh (history : History) : Global → Prop
  | counters {function : String} {count : UInt32} :
      (history function).pending.head? = some count →
      Fresh history ⟨counterArray function count, some function⟩
  | profileData {function : String} {count : UInt32} :
      (history function).pending.head? = some count → Fresh history
        ⟨profileDataRecord function (functionHash (utf8 function)) count, some function⟩

/-- What is fresh is as the history wants it once everything is lowered. -/
theorem Fresh.describes {g : Global} (h : Fresh history g) (atomic : Bool) :
    ∃ symbol : OwnSymbol, symbol.Describes (history.lower atomic) g ∧
      ∃ function, symbol.owner = some function ∧ (history function).pending ≠ [] := by
  have hhead : ∀ {function count}, (history function).pending.head? = some count →
      (history.lower atomic function).lowered.head? = some (count, atomic) ∧
        (history function).pending ≠ [] := by
    intro function count hcount
    obtain ⟨rest, hcons⟩ := List.head?_eq_some_iff.1 hcount
    rw [History.lower, Shape.lower, hcons]
    exact ⟨rfl, List.cons_ne_nil _ _⟩
  cases h with
  | @counters function count hcount =>
      exact ⟨.counters function, ⟨_, (hhead hcount).1, rfl⟩, function, rfl, (hhead hcount).2⟩
  | @profileData function count hcount =>
      exact ⟨.profileData function, ⟨_, (hhead hcount).1, rfl⟩, function, rfl, (hhead hcount).2⟩

/-- What is fresh does not bear the name of a symbol without an owner. -/
theorem Fresh.name_ne {g : Global} (h : Fresh history g) (symbol : OwnSymbol)
    (howner : symbol.owner = none) : g.name ≠ symbol.name := by
  intro hname
  obtain ⟨symbol', hdescribes, function, howner', -⟩ := h.describes true
  obtain rfl := OwnSymbol.name_inj.1 (hdescribes.name_eq.symm.trans hname)
  rw [howner] at howner'
  cases howner'

/-- What is fresh is told by its name. -/
theorem Fresh.eq {g g' : Global} (h : Fresh history g) (h' : Fresh history g')
    (hname : g.name = g'.name) : g = g' := by
  cases h with
  | @counters function count hcount =>
      cases h' with
      | @counters function' count' hcount' =>
          cases OwnSymbol.name_inj (a := .counters function) (b := .counters function').1 hname
          rw [hcount] at hcount'
          rw [Option.some.inj hcount']
      | @profileData function' count' hcount' =>
          cases OwnSymbol.name_inj (a := .counters function) (b := .profileData function').1 hname
  | @profileData function count hcount =>
      cases h' with
      | @counters function' count' hcount' =>
          cases OwnSymbol.name_inj (a := .profileData function) (b := .counters function').1 hname
      | @profileData function' count' hcount' =>
          cases OwnSymbol.name_inj (a := .profileData function) (b := .profileData function').1
            hname
          rw [hcount] at hcount'
          rw [Option.some.inj hcount']

/-! ### The first step -/

/-- One module has more of what is fresh than another, and is like it otherwise. -/
structure Freshens (history : History) (m m' : Module) : Prop where
  functions : m'.functions = m.functions
  nodup : m'.globalNames.Nodup
  kept : ∀ name ∈ m.globalNames, name ∈ m'.globalNames
  known : ∀ g ∈ m'.globals, g ∈ m.globals ∨ Fresh history g
  fresh : ∀ g ∈ m.globals, Fresh history g → g ∈ m'.globals

namespace Freshens

/-- A module is as fresh as it is. -/
theorem refl (h : m.globalNames.Nodup) : Freshens history m m :=
  ⟨rfl, h, fun _ => id, fun _ => .inl, fun _ hg _ => hg⟩

/-- Freshening twice. -/
theorem trans (h : Freshens history m m') (h' : Freshens history m' m'') :
    Freshens history m m'' where
  functions := h'.functions.trans h.functions
  nodup := h'.nodup
  kept := fun name hname => h'.kept name (h.kept name hname)
  known := fun g hg => (h'.known g hg).elim (h.known g) .inr
  fresh := fun g hg hfresh => h'.fresh g (h.fresh g hg hfresh) hfresh

/-- A fresh variable is put in. -/
theorem putOwned (hnodup : m.globalNames.Nodup) {v : Variable}
    (hfresh : Fresh history ⟨v, some function⟩) : Freshens history m (m.putOwned v function) where
  functions := functions_putOwned
  nodup := by
    rw [globalNames_putOwned]
    exact nodup_globalNames_putVariable hnodup
  kept := fun name hname => by
    rw [globalNames_putOwned]
    exact mem_globalNames_putVariable.2 (.inl hname)
  known := fun g hg => by
    rcases (mem_globals_putOwned hnodup).1 hg with ⟨hg, -⟩ | rfl
    · exact .inl hg
    · exact .inr hfresh
  fresh := fun g hg hgfresh => by
    refine (mem_globals_putOwned hnodup).2 ?_
    by_cases hname : g.name = v.name
    · exact .inr (hgfresh.eq hfresh hname)
    · exact .inl ⟨hg, hname⟩

/-- Freshening does not touch name variables. -/
theorem nameVariable_mem (h : Freshens history m m') (hnodup : m.globalNames.Nodup)
    (hmem : ⟨SourceCoverage.nameVariable function, none⟩ ∈ m.globals) :
    ⟨SourceCoverage.nameVariable function, none⟩ ∈ m'.globals := by
  obtain ⟨g, hg, hname⟩ := List.mem_map.1 (h.kept _ (List.mem_map_of_mem hmem))
  rcases h.known g hg with hold | hfresh
  · rwa [← List.inj_on_of_nodup_map hnodup hold hmem hname]
  · exact absurd hname (hfresh.name_ne (.nameVariable function) rfl)

end Freshens

/-- The name of an increment, and the function that it is of. -/
theorem profiled_of_nameVariable_eq (h : use.nameVariable = Symbol.nameVariable function) :
    use.profiled = ⟨Symbol.nameVariable function, function⟩ := by
  have hafter : Symbol.after? "__profn_" (Symbol.nameVariable function) = some function :=
    Symbol.after?_eq_some_iff.2 rfl
  rw [Increment.profiled, h, hafter, Option.getD_some]

/-- The name of a use, and the function that it is of. -/
theorem IsUse.profiled_eq (h : Follows.IsUse history function use) :
    use.profiled = ⟨Symbol.nameVariable function, function⟩ :=
  profiled_of_nameVariable_eq h.nameVariable

/-- One use makes all that is fresh of its function. -/
theorem profileFirst_spec (hnodup : m.globalNames.Nodup)
    (huse : Follows.IsUse history function use)
    (hmem : ⟨SourceCoverage.nameVariable function, none⟩ ∈ m.globals) :
    ∃ m', m.profileFirst use = .ok (m', use.profiled) ∧ Freshens history m m' ∧
      ∀ g, Fresh history g → g.owner = some function → g ∈ m'.globals := by
  have hglobal : m.global? (Symbol.nameVariable function)
      = some ⟨SourceCoverage.nameVariable function, none⟩ :=
    (global?_eq_some_iff hnodup).2 ⟨hmem, rfl⟩
  have hbytes : m.bytes? (Symbol.nameVariable function) = some (utf8 function) := by
    rw [Module.bytes?, hglobal]
    rfl
  have hcounters : Fresh history ⟨counterArray function use.counterCount, some function⟩ :=
    .counters huse.head?
  have hprofileData : Fresh history
      ⟨profileDataRecord function use.functionHash use.counterCount, some function⟩ := by
    rw [huse.functionHash]
    exact .profileData huse.head?
  have hfirst := Freshens.putOwned hnodup hcounters
  have hsecond := Freshens.putOwned hfirst.nodup hprofileData
  refine ⟨m.profile function use, ?_, hfirst.trans hsecond, fun g hfresh howner => ?_⟩
  · simp only [profileFirst, huse.nameVariable, hbytes, IsUse.profiled_eq huse,
      Text.ofDamagedUtf8_utf8]
  · cases hfresh with
    | counters hhead =>
        obtain rfl := Option.some.inj howner
        refine hsecond.fresh _ ((mem_globals_putOwned hnodup).2 (.inr ?_)) (.counters hhead)
        rw [Option.some.inj (hhead.symm.trans huse.head?)]
    | profileData hhead =>
        obtain rfl := Option.some.inj howner
        refine (mem_globals_putOwned hfirst.nodup).2 (.inr ?_)
        rw [Option.some.inj (hhead.symm.trans huse.head?), huse.functionHash]

/-- **The first step of lowering** makes what is fresh of the functions with a use, and finds
their names. -/
theorem profileAll_spec (hnodup : m.globalNames.Nodup) (uses : List Increment)
    (huses : ∀ use ∈ uses, ∃ function, Follows.IsUse history function use ∧
      ⟨SourceCoverage.nameVariable function, none⟩ ∈ m.globals) :
    ∃ m', m.profileAll uses = .ok (m', uses.map Increment.profiled) ∧ Freshens history m m' ∧
      ∀ use ∈ uses, ∀ function, Follows.IsUse history function use →
        ∀ g, Fresh history g → g.owner = some function → g ∈ m'.globals := by
  induction uses generalizing m with
  | nil => exact ⟨m, rfl, .refl hnodup, nofun⟩
  | cons use uses ih =>
      obtain ⟨function, huse, hmem⟩ := huses use (List.mem_cons_self ..)
      obtain ⟨m₁, hfirst, hfresh₁, hmade⟩ := profileFirst_spec hnodup huse hmem
      obtain ⟨m₂, hrest, hfresh₂, hall⟩ := ih hfresh₁.nodup fun use' huse' => by
        obtain ⟨function', hisUse, hmem'⟩ := huses use' (List.mem_cons_of_mem _ huse')
        exact ⟨function', hisUse, hfresh₁.nameVariable_mem hnodup hmem'⟩
      refine ⟨m₂, ?_, hfresh₁.trans hfresh₂, List.forall_mem_cons.2 ⟨?_, hall⟩⟩
      · simp only [profileAll, hfirst, hrest, Except.map, List.map_cons]
      · intro function' hisUse g hfresh howner
        have hsame : OwnSymbol.nameVariable function' = .nameVariable function :=
          OwnSymbol.name_inj.1 (hisUse.nameVariable.symm.trans huse.nameVariable)
        cases hsame
        exact hfresh₂.fresh g (hmade g hfresh howner) hfresh

/-! ### The last step -/

/-- Folding the names leaves the functions alone. -/
theorem functions_foldNames {profiled : List ProfiledName} :
    (m.foldNames profiled).functions = m.functions := by
  have hfold : ∀ (names : List ProfiledName) (m : Module),
      (names.foldl (fun m name => m.removeGlobal name.nameVariable) m).functions
        = m.functions := by
    intro names
    induction names with
    | nil => exact fun _ => rfl
    | cons name names ih => exact fun m => ih (m.removeGlobal name.nameVariable)
  rw [foldNames, functions_putVariable, hfold]

/-- The global variables after some names were deleted. -/
theorem mem_globals_foldl_removeGlobal {names : List ProfiledName} {g : Global} :
    g ∈ (names.foldl (fun m name => m.removeGlobal name.nameVariable) m).globals
      ↔ g ∈ m.globals ∧ ∀ name ∈ names, g.name ≠ name.nameVariable := by
  induction names generalizing m with
  | nil => simp
  | cons name names ih =>
      rw [List.foldl_cons, ih, mem_globals_removeGlobal, List.forall_mem_cons, and_assoc]

/-- Deleting keeps the names of global variables distinct. -/
theorem nodup_globalNames_foldl_removeGlobal (h : m.globalNames.Nodup)
    {names : List ProfiledName} :
    (names.foldl (fun m name => m.removeGlobal name.nameVariable) m).globalNames.Nodup := by
  induction names generalizing m with
  | nil => exact h
  | cons name names ih => exact ih (h.sublist (List.filter_sublist.map _))

/-- A module after lowering: its bodies are lowered, and its global variables are those it had
before, all that is fresh, and the names. -/
structure Lowers (history : History) (lowering : Lowering) (profiled : List ProfiledName)
    (m m' : Module) : Prop where
  functions : m'.functions = m.functions.map fun f =>
    { f with body := f.body.map (·.map (·.lower lowering profiled)) }
  nodup : m'.globalNames.Nodup
  known : ∀ g ∈ m'.globals, g ∈ m.globals ∨ Fresh history g ∨
    ∃ chunks, g = ⟨namesVariable chunks, none⟩
  kept : ∀ name ∈ m.globalNames, (∀ function, name ≠ Symbol.nameVariable function) →
    name ∈ m'.globalNames
  fresh : ∀ g, Fresh history g → g ∈ m'.globals

/-! ### The pass -/

namespace Follows

/-- A module without increments follows the history in which everything is lowered. -/
theorem lower_of_increments_eq_nil (h : m.Follows history) (hnone : m.increments = [])
    (atomic : Bool) : history.lower atomic = history := by
  funext name
  refine Shape.lower_of_pending_eq_nil ?_ atomic
  refine Classical.byContradiction fun hpending => ?_
  obtain ⟨count, hcount⟩ := List.exists_mem_of_ne_nil _ hpending
  have hpos : 0 < count := UInt32.pos_iff_ne_zero.2 ((h.valid name).pending count hcount)
  have hmem := h.mem_increments_iff.2 ⟨name, count, hcount, 0, hpos, rfl⟩
  rw [hnone] at hmem
  cases hmem

/-- The uses of a module that follows a history are of functions with pending increments, and
their name variables are there. -/
theorem isUse_of_mem_firstUses (h : m.Follows history) (huse : use ∈ firstUses m.increments) :
    ∃ function, IsUse history function use ∧
      ⟨SourceCoverage.nameVariable function, none⟩ ∈ m.globals := by
  obtain ⟨function, hisUse⟩ := h.isUse_of_find? ((firstUses_spec m.increments).first use huse)
  refine ⟨function, hisUse, h.nameVariable_mem fun hnil => ?_⟩
  have hhead := hisUse.head?
  rw [hnil] at hhead
  cases hhead

/-- Every function with pending increments has a use. -/
theorem exists_use (h : m.Follows history) (hpending : (history function).pending ≠ []) :
    ∃ use ∈ firstUses m.increments, IsUse history function use := by
  obtain ⟨count, hcount⟩ := List.exists_mem_of_ne_nil _ hpending
  have hpos : 0 < count := UInt32.pos_iff_ne_zero.2 ((h.valid function).pending count hcount)
  obtain ⟨use, huse, hname⟩ := (firstUses_spec m.increments).complete _
    (h.mem_increments_iff.2 ⟨function, count, hcount, 0, hpos, rfl⟩)
  obtain ⟨function', hisUse, -⟩ := h.isUse_of_mem_firstUses huse
  have hsame : OwnSymbol.nameVariable function' = .nameVariable function :=
    OwnSymbol.name_inj.1 (hisUse.nameVariable.symm.trans hname)
  cases hsame
  exact ⟨use, huse, hisUse⟩

/-- The function of a name variable is found among the names of the uses. -/
theorem profiledFunction?_eq (h : m.Follows history) (hpending : (history function).pending ≠ []) :
    profiledFunction? ((firstUses m.increments).map Increment.profiled)
      (Symbol.nameVariable function) = some function := by
  obtain ⟨use, huse, hisUse⟩ := h.exists_use hpending
  rw [profiledFunction?, Option.map_eq_some_iff]
  have hsome : (((firstUses m.increments).map Increment.profiled).find?
      (·.nameVariable = Symbol.nameVariable function)).isSome := by
    rw [List.find?_isSome]
    exact ⟨_, List.mem_map_of_mem huse, decide_eq_true hisUse.nameVariable⟩
  obtain ⟨name, hfind⟩ := Option.isSome_iff_exists.1 hsome
  refine ⟨name, hfind, ?_⟩
  have hname : name.nameVariable = Symbol.nameVariable function := by
    simpa using List.find?_some hfind
  obtain ⟨use', huse', rfl⟩ := List.mem_map.1 (List.mem_of_find?_eq_some hfind)
  obtain ⟨function', hisUse', -⟩ := h.isUse_of_mem_firstUses huse'
  have heq := IsUse.profiled_eq hisUse'
  rw [heq] at hname ⊢
  cases OwnSymbol.name_inj (a := .nameVariable function') (b := .nameVariable function).1 hname
  rfl

/-- The global variable that is fresh of a symbol with an owner that has pending increments. -/
theorem exists_fresh (symbol : OwnSymbol) (howner : symbol.owner = some function)
    (hpending : (history function).pending ≠ []) : ∃ g, Fresh history g ∧ g.name = symbol.name := by
  obtain ⟨count, rest, hcons⟩ := List.exists_cons_of_ne_nil hpending
  have hhead : (history function).pending.head? = some count := by rw [hcons, List.head?_cons]
  cases symbol with
  | counters own =>
      obtain rfl := Option.some.inj howner
      exact ⟨_, .counters hhead, rfl⟩
  | profileData own =>
      obtain rfl := Option.some.inj howner
      exact ⟨_, .profileData hhead, rfl⟩
  | _ => cases howner

/-- **The steps of lowering**, one after another. -/
theorem exists_lowers (h : m.Follows history) (hsome : m.increments ≠ []) (lowering : Lowering) :
    ∃ m', m.lower lowering = .ok m' ∧ Lowers history lowering
      ((firstUses m.increments).map Increment.profiled) m m' := by
  obtain ⟨m₁, hall, hfreshens, hmade⟩ := profileAll_spec h.globalNames (firstUses m.increments)
    fun use huse => h.isUse_of_mem_firstUses huse
  generalize hprofiled : (firstUses m.increments).map Increment.profiled = profiled at hall ⊢
  -- The names that are folded are those of name variables.
  have hnames : ∀ {name : String}, (∀ function, name ≠ Symbol.nameVariable function) →
      ∀ entry ∈ profiled, name ≠ entry.nameVariable := by
    intro name hne entry hentry
    rw [← hprofiled] at hentry
    obtain ⟨use, huse, rfl⟩ := List.mem_map.1 hentry
    obtain ⟨function, hisUse, -⟩ := h.isUse_of_mem_firstUses huse
    rw [IsUse.profiled_eq hisUse]
    exact hne function
  have hnodup : (profiled.foldl (fun m name => m.removeGlobal name.nameVariable)
      (m₁.lowerBodies lowering profiled)).globalNames.Nodup :=
    nodup_globalNames_foldl_removeGlobal (m := m₁.lowerBodies lowering profiled) hfreshens.nodup
  refine ⟨(m₁.lowerBodies lowering profiled).foldNames profiled, ?_, ?_, ?_, ?_, ?_, ?_⟩
  · rw [Module.lower, if_neg hsome, hall]
    rfl
  · rw [functions_foldNames, lowerBodies, hfreshens.functions]
  · exact nodup_globalNames_putVariable hnodup
  · intro g hg
    have hknown : ∀ {g}, g ∈ (profiled.foldl (fun m name => m.removeGlobal name.nameVariable)
        (m₁.lowerBodies lowering profiled)).globals → g ∈ m.globals ∨ Fresh history g :=
      fun hg => hfreshens.known _ (mem_globals_foldl_removeGlobal.1 hg).1
    rcases (mem_globals_putVariable hnodup).1 hg with ⟨hg, -⟩ | rfl
    · rcases hknown hg with hold | hfresh
      · exact .inl hold
      · exact .inr (.inl hfresh)
    · refine .inr (.inr ⟨_, congrArg (Global.mk _) (ownerOf_eq_none_of_forall hnodup ?_)⟩)
      intro g hg hname
      rcases hknown hg with hold | hfresh
      · exact (h.describes hold .profileNames hname).owner_eq
      · exact absurd hname (hfresh.name_ne .profileNames rfl)
  · intro name hname hne
    obtain ⟨g, hg, rfl⟩ := List.mem_map.1 (hfreshens.kept name hname)
    exact mem_globalNames_putVariable.2 (.inl (List.mem_map_of_mem
      (mem_globals_foldl_removeGlobal.2 ⟨hg, hnames hne⟩)))
  · intro g hfresh
    obtain ⟨symbol, hdescribes, function, howner, hpending⟩ := hfresh.describes true
    obtain ⟨use, huse, hisUse⟩ := h.exists_use hpending
    have hmem := hmade use huse function hisUse g hfresh (hdescribes.owner_eq.trans howner)
    refine (mem_globals_putVariable hnodup).2 (.inl ⟨mem_globals_foldl_removeGlobal.2
      ⟨hmem, hnames fun other => ?_⟩, ?_⟩)
    · exact hfresh.name_ne (.nameVariable other) rfl
    · exact hfresh.name_ne .profileNames rfl

/-- Lowering leaves the shape of a function alone that has nothing pending. -/
theorem lower_of_pending_eq_nil (hnil : (history function).pending = []) (atomic : Bool) :
    history.lower atomic function = history function :=
  Shape.lower_of_pending_eq_nil hnil _

/-- A function follows the history in which everything is lowered, if its body was lowered. -/
theorem follows_lowerBody (h : m.Follows history) (lowering : Lowering)
    {profiled : List ProfiledName}
    (hprofiled : ∀ function, (history function).pending ≠ [] →
      profiledFunction? profiled (Symbol.nameVariable function) = some function)
    {f : Function} (hf : f ∈ m.functions) :
    ({ f with body := f.body.map (·.map (·.lower lowering profiled)) } : Function).Follows
      (history.lower lowering.atomic) := by
  cases h.function f hf with
  | declaration hunreserved => exact .declaration hunreserved
  | @definition name linkage hunreserved hvalid =>
      rw [Option.map_some, Shape.body_lower (hprofiled name)]
      exact .definition hunreserved (hvalid.lower _)
  | increment => exact .increment
  | runtime => exact .runtime

/-- A global variable after lowering is as the history wants it in which everything is lowered:
what was there of a function with pending increments has given way to what is fresh. -/
theorem describes_of_lowers (h : m.Follows history) {lowering : Lowering}
    {profiled : List ProfiledName} (hlowers : Lowers history lowering profiled m m') {g : Global}
    (hg : g ∈ m'.globals) :
    ∃ symbol : OwnSymbol, symbol.Describes (history.lower lowering.atomic) g := by
  rcases hlowers.known g hg with hold | hfresh | ⟨chunks, rfl⟩
  · obtain ⟨symbol, hdescribes⟩ := h.global g hold
    by_cases hpending : ∃ function, symbol.owner = some function ∧
        (history function).pending ≠ []
    · obtain ⟨function, howner, hpending⟩ := hpending
      obtain ⟨g', hfresh, hname⟩ := exists_fresh symbol howner hpending
      have heq := List.inj_on_of_nodup_map hlowers.nodup hg (hlowers.fresh g' hfresh)
        (hdescribes.name_eq.trans hname.symm)
      obtain ⟨symbol', hdescribes', -⟩ := (heq ▸ hfresh).describes lowering.atomic
      exact ⟨symbol', hdescribes'⟩
    · refine ⟨symbol, hdescribes.congr fun function howner => ?_⟩
      have hnil : (history function).pending = [] :=
        Classical.byContradiction fun hne => hpending ⟨function, howner, hne⟩
      rw [lower_of_pending_eq_nil hnil]
  · obtain ⟨symbol, hdescribes, -⟩ := hfresh.describes lowering.atomic
    exact ⟨symbol, hdescribes⟩
  · exact ⟨.profileNames, chunks, rfl⟩

/-- A module after lowering follows the history in which everything is lowered. -/
theorem of_lowers (h : m.Follows history) {lowering : Lowering} {profiled : List ProfiledName}
    (hlowers : Lowers history lowering profiled m m')
    (hprofiled : ∀ function, (history function).pending ≠ [] →
      profiledFunction? profiled (Symbol.nameVariable function) = some function) :
    m'.Follows (history.lower lowering.atomic) := by
  have hnames : m'.functionNames = m.functionNames := by
    rw [Module.functionNames, hlowers.functions, List.map_map]
    rfl
  refine of_history (hnames ▸ h.functionNames) hlowers.nodup ?_ ?_
    (fun g hg => h.describes_of_lowers hlowers hg) ?_ ?_ ?_ ?_
  · intro f' hf'
    rw [hlowers.functions] at hf'
    obtain ⟨f, hf, rfl⟩ := List.mem_map.1 hf'
    exact h.follows_lowerBody lowering hprofiled hf
  · intro name hundefined
    have hempty : history name = .empty := by
      refine h.undefined name ?_
      rintro ⟨f, hf, hname, hbody⟩
      refine hundefined ⟨{ f with body := f.body.map (·.map (·.lower lowering profiled)) }, ?_,
        hname, by simpa using hbody⟩
      rw [hlowers.functions]
      exact List.mem_map.2 ⟨f, hf, rfl⟩
    rw [lower_of_pending_eq_nil (by rw [hempty]; rfl), hempty]
  · exact fun name hpending => absurd rfl hpending
  · intro name hlowered
    by_cases hpending : (history name).pending = []
    · rw [lower_of_pending_eq_nil hpending] at hlowered
      refine hlowers.kept _ (h.counters_mem_globalNames hlowered) fun function heq => ?_
      cases OwnSymbol.name_inj (a := .counters name) (b := .nameVariable function).1 heq
    · obtain ⟨g, hfresh, hname⟩ := exists_fresh (.counters name) rfl hpending
      exact List.mem_map.2 ⟨g, hlowers.fresh g hfresh, hname⟩
  · rw [hnames]
    exact fun name callee hcallee => h.callee_mem hcallee
  · intro huser
    rw [hnames]
    obtain ⟨g, hg, hname⟩ := List.mem_map.1 huser
    rcases hlowers.known g hg with hold | hfresh | ⟨chunks, rfl⟩
    · exact h.profileRuntime_mem (List.mem_map.2 ⟨g, hold, hname⟩)
    · exact absurd hname (hfresh.name_ne .profileRuntimeUser rfl)
    · cases OwnSymbol.name_inj (a := .profileNames) (b := .profileRuntimeUser).1 hname

/-- **Lowering in the history.** Lowering succeeds, and turns everything that is pending into
what is lowered. -/
theorem lower (h : m.Follows history) (lowering : Lowering) :
    ∃ m', m.lower lowering = .ok m' ∧ m'.Follows (history.lower lowering.atomic) := by
  by_cases hnone : m.increments = []
  · refine ⟨m, if_pos hnone, ?_⟩
    rwa [h.lower_of_increments_eq_nil hnone]
  · obtain ⟨m', hlower, hlowers⟩ := h.exists_lowers hnone lowering
    exact ⟨m', hlower, h.of_lowers hlowers fun _ hpending => h.profiledFunction?_eq hpending⟩

end Follows

end Module

end SourceCoverage
