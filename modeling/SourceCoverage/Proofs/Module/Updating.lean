import SourceCoverage.Module.Building
import SourceCoverage.Proofs.Module.Graph
import SourceCoverage.Proofs.Results

/-!
# Updating Modules

What the operations that replace or add a symbol leave in the lists of a module. Where no two
elements share a key, replacing the first element with a key is replacing *the* element with it,
so that the operation can be read as a map over the list, and membership says all there is to
say.

## Main results

* `updateFirst_eq_map`: an update of the first match is a map if there is one match at most.
* `Module.mem_globals_putVariable`, `Module.mem_globals_putOwned`: the variables of a module
  after one was put into it.
* `Module.definition?_putAll_of_mem`: what a name is defined as after several were put into it.
* `Module.declareFunction_eq_ok_iff`, `Module.defineVariable_eq_ok_iff` and the like: when an
  operation that may refuse succeeds, and what it does then.
-/

namespace SourceCoverage

/-! ### Updating the first match -/

section UpdateFirst

variable {α : Type} {p : α → Bool} {f : α → α} {xs : List α}

/-- An update that keeps a value of the elements keeps the list of the values. -/
theorem map_updateFirst_of_eq {β : Type} {value : α → β}
    (h : ∀ x ∈ xs, p x → value (f x) = value x) :
    (updateFirst p f xs).map value = xs.map value := by
  induction xs with
  | nil => rfl
  | cons x xs ih =>
      rw [updateFirst]
      by_cases hx : p x = true
      · rw [if_pos hx, List.map_cons, List.map_cons, h x (List.mem_cons_self ..) hx]
      · rw [if_neg hx, List.map_cons, List.map_cons,
          ih fun y hy => h y (List.mem_cons_of_mem _ hy)]

/-- An element stays there in an update of the first match, or was updated. -/
theorem mem_updateFirst_of_mem {x : α} (h : x ∈ xs) :
    x ∈ updateFirst p f xs ∨ p x ∧ f x ∈ updateFirst p f xs := by
  induction xs with
  | nil => cases h
  | cons y ys ih =>
      rw [updateFirst]
      by_cases hy : p y = true
      · rw [if_pos hy]
        rcases List.mem_cons.1 h with rfl | h
        · exact .inr ⟨hy, List.mem_cons_self ..⟩
        · exact .inl (List.mem_cons_of_mem _ h)
      · rw [if_neg hy]
        rcases List.mem_cons.1 h with rfl | h
        · exact .inl (List.mem_cons_self ..)
        · exact (ih h).imp (List.mem_cons_of_mem _) fun hupdated =>
            ⟨hupdated.1, List.mem_cons_of_mem _ hupdated.2⟩

/-- **Where there is one match at most, an update is a map.** -/
theorem updateFirst_eq_map (h : xs.Pairwise fun x y => p x → ¬p y) :
    updateFirst p f xs = xs.map fun x => if p x then f x else x := by
  induction xs with
  | nil => rfl
  | cons x xs ih =>
      rw [List.pairwise_cons] at h
      rw [updateFirst, List.map_cons]
      by_cases hx : p x = true
      · have hrest : xs.map (fun y => if p y then f y else y) = xs := by
          refine (List.map_congr_left fun y hy => ?_).trans (List.map_id xs)
          rw [if_neg (h.1 y hy hx), id]
        rw [if_pos hx, if_pos hx, hrest]
      · rw [if_neg hx, if_neg hx, ih h.2]

/-- Where no two elements share a key, there is one match at most for it. -/
theorem pairwise_of_nodup_key {key : α → String} (h : (xs.map key).Nodup) {name : String}
    (hp : ∀ x, p x → key x = name) : xs.Pairwise fun x y => p x → ¬p y := by
  refine List.Pairwise.imp ?_ (List.pairwise_map.1 h)
  intro x y hne hx hy
  exact hne ((hp x hx).trans (hp y hy).symm)

/-- The elements after an update by key. -/
theorem mem_updateFirst_key {key : α → String} (h : (xs.map key).Nodup) {name : String} {y : α} :
    y ∈ updateFirst (key · = name) f xs
      ↔ y ∈ xs ∧ key y ≠ name ∨ ∃ x ∈ xs, key x = name ∧ f x = y := by
  rw [updateFirst_eq_map (pairwise_of_nodup_key h fun x hx => of_decide_eq_true hx), List.mem_map]
  constructor
  · rintro ⟨x, hx, rfl⟩
    by_cases hkey : key x = name
    · exact .inr ⟨x, hx, hkey, by rw [if_pos (decide_eq_true hkey)]⟩
    · refine .inl ?_
      rw [if_neg (by simpa using hkey)]
      exact ⟨hx, hkey⟩
  · rintro (⟨hy, hkey⟩ | ⟨x, hx, hkey, rfl⟩)
    · exact ⟨y, hy, by rw [if_neg (by simpa using hkey)]⟩
    · exact ⟨x, hx, by rw [if_pos (decide_eq_true hkey)]⟩

/-- An update of an element that a filter drops, before and after, is not seen through it. -/
theorem filter_updateFirst {q : α → Bool}
    (h : ∀ x, p x → q x = false ∧ q (f x) = false) :
    (updateFirst p f xs).filter q = xs.filter q := by
  induction xs with
  | nil => rfl
  | cons x xs ih =>
      rw [updateFirst]
      by_cases hx : p x = true
      · obtain ⟨hold, hnew⟩ := h x hx
        rw [if_pos hx, List.filter_cons, List.filter_cons, hold, hnew]
        rfl
      · rw [if_neg hx, List.filter_cons, List.filter_cons, ih]

/-- The first match after it was updated is the updated one, if it still matches. -/
theorem find?_updateFirst (h : ∀ x, p x = true → p (f x) = true) :
    (updateFirst p f xs).find? p = (xs.find? p).map f := by
  induction xs with
  | nil => rfl
  | cons x xs ih =>
      rw [updateFirst]
      by_cases hx : p x = true
      · rw [if_pos hx, List.find?_cons_of_pos (h x hx), List.find?_cons_of_pos hx, Option.map_some]
      · rw [if_neg hx, List.find?_cons_of_neg hx, List.find?_cons_of_neg hx, ih]

/-- An update that leaves the first match as it is changes nothing. -/
theorem updateFirst_of_find? {x : α} (h : xs.find? p = some x) (hsame : f x = x) :
    updateFirst p f xs = xs := by
  induction xs with
  | nil => rfl
  | cons y ys ih =>
      rw [updateFirst]
      by_cases hy : p y = true
      · rw [List.find?_cons_of_pos hy] at h
        obtain rfl := Option.some.inj h
        rw [if_pos hy, hsame]
      · rw [List.find?_cons_of_neg hy] at h
        rw [if_neg hy, ih h]

end UpdateFirst

/-! ### Global variables -/

namespace Module

variable {m : Module} {v : Variable}

/-- The owner of the global of a name, if it is there and has one. -/
def ownerOf (m : Module) (name : String) : Option String := (m.global? name).bind (·.owner)

/-- Where no global variable of a name has an owner, the name has none. -/
theorem ownerOf_eq_none_of_forall (h : m.globalNames.Nodup) {name : String}
    (hnone : ∀ g ∈ m.globals, g.name = name → g.owner = none) : m.ownerOf name = none := by
  rw [ownerOf]
  cases hglobal : m.global? name with
  | none => rfl
  | some g =>
      obtain ⟨hg, hname⟩ := (global?_eq_some_iff h).1 hglobal
      exact hnone g hg hname

/-- Putting a variable into a module leaves the functions alone. -/
@[simp] theorem functions_putVariable : (m.putVariable v).functions = m.functions := by
  rw [putVariable]
  split <;> rfl

/-- Putting an owned variable into a module leaves the functions alone. -/
@[simp] theorem functions_putOwned {owner : String} :
    (m.putOwned v owner).functions = m.functions :=
  functions_putVariable

/-- So it leaves their names. -/
@[simp] theorem functionNames_putVariable : (m.putVariable v).functionNames = m.functionNames := by
  rw [functionNames, functions_putVariable, functionNames]

/-- Putting a variable into a module leaves its name alone. -/
@[simp] theorem name_putVariable : (m.putVariable v).name = m.name := by
  rw [putVariable]
  split <;> rfl

/-- The names of global variables after one was put into the module. -/
theorem globalNames_putVariable : (m.putVariable v).globalNames
    = if v.name ∈ m.globalNames then m.globalNames else m.globalNames ++ [v.name] := by
  rw [putVariable]
  by_cases hmem : v.name ∈ m.globalNames
  · rw [if_pos hmem, if_pos (isSome_global?_iff.2 hmem), globalNames, globalNames]
    exact map_updateFirst_of_eq fun g _ hg => (of_decide_eq_true hg).symm
  · rw [if_neg hmem, if_neg (fun h => hmem (isSome_global?_iff.1 h))]
    simp [globalNames, Global.name]

/-- The names of global variables do not depend on their owners. -/
theorem globalNames_putOwned {owner : String} :
    (m.putOwned v owner).globalNames = (m.putVariable v).globalNames :=
  map_updateFirst_of_eq fun _ _ _ => rfl

/-- A variable that was put into a module is there, and all others are still there. -/
theorem mem_globalNames_putVariable {name : String} :
    name ∈ (m.putVariable v).globalNames ↔ name ∈ m.globalNames ∨ name = v.name := by
  rw [globalNames_putVariable]
  by_cases hmem : v.name ∈ m.globalNames
  · rw [if_pos hmem]
    constructor
    · exact .inl
    · rintro (h | rfl)
      · exact h
      · exact hmem
  · rw [if_neg hmem, List.mem_append, List.mem_singleton]

/-- Putting a variable into a module keeps names of global variables distinct. -/
theorem nodup_globalNames_putVariable (h : m.globalNames.Nodup) :
    (m.putVariable v).globalNames.Nodup := by
  rw [globalNames_putVariable]
  by_cases hmem : v.name ∈ m.globalNames
  · rwa [if_pos hmem]
  · rw [if_neg hmem]
    refine List.nodup_append.2 ⟨h, List.nodup_cons.2 ⟨List.not_mem_nil, List.nodup_nil⟩, ?_⟩
    rintro name hname _ hv rfl
    exact hmem (List.mem_singleton.1 hv ▸ hname)

/-- **The global variables after one was put into the module**: the others as they were, and the
new one with the owner of the one in whose place it is. -/
theorem mem_globals_putVariable (h : m.globalNames.Nodup) {g : Global} :
    g ∈ (m.putVariable v).globals
      ↔ g ∈ m.globals ∧ g.name ≠ v.name ∨ g = ⟨v, m.ownerOf v.name⟩ := by
  rw [putVariable, ownerOf]
  cases hglobal : m.global? v.name with
  | some old =>
      obtain ⟨hold, hname⟩ := (global?_eq_some_iff h).1 hglobal
      rw [if_pos Option.isSome_some, mem_updateFirst_key h]
      refine or_congr_right ⟨?_, ?_⟩
      · rintro ⟨x, hx, hkey, rfl⟩
        have hsame := (global?_eq_some_iff h).2 ⟨hx, hkey⟩
        obtain rfl : old = x := Option.some.inj (hglobal.symm.trans hsame)
        rfl
      · rintro rfl
        exact ⟨old, hold, hname, rfl⟩
  | none =>
      have hfresh : ∀ x ∈ m.globals, x.name ≠ v.name := fun x hx heq => by
        have hsome := (global?_eq_some_iff h).2 ⟨hx, heq⟩
        rw [hglobal] at hsome
        cases hsome
      rw [if_neg (by simp), List.mem_append, List.mem_singleton]
      constructor
      · rintro (hg | rfl)
        · exact .inl ⟨hg, hfresh g hg⟩
        · exact .inr rfl
      · rintro (⟨hg, -⟩ | rfl)
        · exact .inl hg
        · exact .inr rfl

/-- **The global variables after an owned one was put into the module.** -/
theorem mem_globals_putOwned (h : m.globalNames.Nodup) {owner : String} {g : Global} :
    g ∈ (m.putOwned v owner).globals
      ↔ g ∈ m.globals ∧ g.name ≠ v.name ∨ g = ⟨v, some owner⟩ := by
  have hput : (m.putOwned v owner).globals = updateFirst (·.name = v.name)
      (fun g => { g with owner := some owner }) (m.putVariable v).globals := rfl
  rw [hput, mem_updateFirst_key (nodup_globalNames_putVariable h), mem_globals_putVariable h]
  constructor
  · rintro (⟨⟨hg, hne⟩ | rfl, hname⟩ | ⟨x, hx, hname, rfl⟩)
    · exact .inl ⟨hg, hne⟩
    · exact absurd rfl hname
    · rcases (mem_globals_putVariable h).1 hx with ⟨-, hne⟩ | rfl
      · exact absurd hname hne
      · exact .inr rfl
  · rintro (⟨hg, hne⟩ | rfl)
    · exact .inl ⟨.inl ⟨hg, hne⟩, hne⟩
    · exact .inr ⟨_, (mem_globals_putVariable h).2 (.inr rfl), rfl, rfl⟩

/-! ### What a name is defined as -/

/-- Through a filter of names that drops the name of a variable, the variables of a module look the
same after it was put into the module. -/
theorem filter_globals_putVariable {q : String → Bool} (h : q v.name = false) :
    (m.putVariable v).globals.filter (q ·.name) = m.globals.filter (q ·.name) := by
  rw [putVariable]
  split
  · exact filter_updateFirst fun g hg => ⟨of_decide_eq_true hg ▸ h, h⟩
  · have hdropped : [({ definition := v } : Global)].filter (q ·.name) = [] :=
      List.filter_eq_nil_iff.2 fun g hg => by
        rw [List.mem_singleton.1 hg]
        exact Bool.eq_false_iff.1 h
    rw [List.filter_append, hdropped, List.append_nil]

/-- So they do after an owned one was put into it. -/
theorem filter_globals_putOwned {q : String → Bool} (h : q v.name = false) (owner : String) :
    (m.putOwned v owner).globals.filter (q ·.name) = m.globals.filter (q ·.name) := by
  rw [← filter_globals_putVariable (m := m) h]
  refine filter_updateFirst fun g hg => ?_
  have hname : q g.name = false := of_decide_eq_true hg ▸ h
  exact ⟨hname, hname⟩

/-- A name is that of the same global variable as before where the variables of this name are the
same. -/
theorem global?_of_filter {m' : Module} {name : String}
    (h : m'.globals.filter (·.name = name) = m.globals.filter (·.name = name)) :
    m'.global? name = m.global? name := by
  rw [global?, global?, ← List.head?_filter, h, List.head?_filter]

/-- The definition of the global variable of a name. -/
def definition? (m : Module) (name : String) : Option Variable :=
  (m.global? name).map (·.definition)

/-- A variable that was put into a module is what its name is defined as. -/
theorem definition?_putVariable_self (m : Module) (v : Variable) :
    (m.putVariable v).definition? v.name = some v := by
  rw [definition?, putVariable]
  cases hglobal : m.global? v.name with
  | some g =>
      have hupdated : (updateFirst (·.name = v.name) (fun g => { g with definition := v })
            m.globals).find? (·.name = v.name)
          = (m.globals.find? (·.name = v.name)).map fun g => { g with definition := v } :=
        find?_updateFirst fun _ _ => decide_eq_true rfl
      rw [if_pos Option.isSome_some, global?]
      rw [global?] at hglobal
      rw [hupdated, hglobal]
      rfl
  | none =>
      have hfound : [({ definition := v } : Global)].find? (·.name = v.name)
          = some { definition := v } := List.find?_cons_of_pos (decide_eq_true rfl)
      rw [if_neg (by simp), global?, List.find?_append]
      rw [global?] at hglobal
      rw [hglobal, Option.none_or, hfound]
      rfl

/-- An owned variable that was put into a module is found under its name, with its owner. -/
theorem global?_putOwned_self (m : Module) (v : Variable) (owner : String) :
    (m.putOwned v owner).global? v.name = some ⟨v, some owner⟩ := by
  have hput : (m.putOwned v owner).global? v.name
      = ((m.putVariable v).global? v.name).map fun g => { g with owner := some owner } :=
    find?_updateFirst fun _ hname => hname
  obtain ⟨g, hglobal, rfl⟩ := Option.map_eq_some_iff.1 (definition?_putVariable_self m v)
  rw [hput, hglobal]
  rfl

/-- A name is defined as before where the variables of this name are the same. -/
theorem definition?_of_filter {m' : Module} {name : String}
    (h : m'.globals.filter (·.name = name) = m.globals.filter (·.name = name)) :
    m'.definition? name = m.definition? name := by
  rw [definition?, global?_of_filter h, definition?]

/-- A variable that its name is defined as already is put where it is. -/
theorem putVariable_of_definition? (h : m.definition? v.name = some v) : m.putVariable v = m := by
  obtain ⟨g, hglobal, rfl⟩ := Option.map_eq_some_iff.1 h
  have hsame : updateFirst (·.name = g.definition.name)
      (fun other : Global => { other with definition := g.definition }) m.globals = m.globals :=
    updateFirst_of_find? hglobal rfl
  rw [putVariable, hglobal, if_pos Option.isSome_some, hsame]

/-- Every other name is defined as before. -/
theorem definition?_putVariable_of_ne {name : String} (h : name ≠ v.name) :
    (m.putVariable v).definition? name = m.definition? name :=
  definition?_of_filter
    (filter_globals_putVariable (q := (decide <| · = name)) (decide_eq_false h.symm))

/-- So it is after an owned variable was put into the module. -/
theorem definition?_putOwned_of_ne {name : String} (h : name ≠ v.name) (owner : String) :
    (m.putOwned v owner).definition? name = m.definition? name :=
  definition?_of_filter
    (filter_globals_putOwned (q := (decide <| · = name)) (decide_eq_false h.symm) owner)

/-- The data of a name, by its definition. -/
theorem bytes?_eq (m : Module) (name : String) :
    m.bytes? name = (m.definition? name).bind (·.value.bytes?) := by
  rw [bytes?, definition?, Option.bind_map]
  rfl

/-- The module with several variables put into it, one after another. -/
def putAll (m : Module) (vs : List Variable) : Module := vs.foldl putVariable m

/-- Several variables that were put into a module are there, and all others are still there. -/
theorem mem_globalNames_putAll {vs : List Variable} {name : String} :
    name ∈ (m.putAll vs).globalNames ↔ name ∈ m.globalNames ∨ ∃ v ∈ vs, v.name = name := by
  induction vs generalizing m with
  | nil => simp [putAll]
  | cons w vs ih =>
      have hput : m.putAll (w :: vs) = (m.putVariable w).putAll vs := rfl
      simp only [hput, ih, mem_globalNames_putVariable, or_assoc, List.mem_cons, or_and_right,
        exists_or, exists_eq_left, eq_comm (a := name)]

/-- Putting several variables into a module leaves the functions alone. -/
theorem functions_putAll {vs : List Variable} : (m.putAll vs).functions = m.functions := by
  induction vs generalizing m with
  | nil => rfl
  | cons w vs ih => exact (ih (m := m.putVariable w)).trans functions_putVariable

/-- So it leaves their names. -/
theorem functionNames_putAll {vs : List Variable} :
    (m.putAll vs).functionNames = m.functionNames := by
  rw [functionNames, functions_putAll, functionNames]

/-- Through a filter of names that drops those of several variables, the variables of a module look
the same after these were put into it. -/
theorem filter_globals_putAll {vs : List Variable} {q : String → Bool}
    (h : ∀ v ∈ vs, q v.name = false) :
    (m.putAll vs).globals.filter (q ·.name) = m.globals.filter (q ·.name) := by
  induction vs generalizing m with
  | nil => rfl
  | cons w vs ih =>
      obtain ⟨hw, hvs⟩ := List.forall_mem_cons.1 h
      exact (ih (m := m.putVariable w) hvs).trans (filter_globals_putVariable hw)

/-- Several variables that their names are defined as already are put where they are. -/
theorem putAll_of_definition? {vs : List Variable}
    (h : ∀ v ∈ vs, m.definition? v.name = some v) : m.putAll vs = m := by
  induction vs with
  | nil => rfl
  | cons w vs ih =>
      obtain ⟨hw, hvs⟩ := List.forall_mem_cons.1 h
      have hput : m.putAll (w :: vs) = (m.putVariable w).putAll vs := rfl
      rw [hput, putVariable_of_definition? hw, ih hvs]

/-- **A name is defined as a variable that was put into the module** if all that were put there
under this name are the same. Induction on the variables that remain: the name is defined so
already, or the variable is still to come. -/
theorem definition?_putAll_of_mem {vs : List Variable} (hmem : v ∈ vs)
    (hsame : ∀ w ∈ vs, w.name = v.name → w = v) (m : Module) :
    (m.putAll vs).definition? v.name = some v := by
  have hkept : ∀ (vs : List Variable) (m : Module), (∀ w ∈ vs, w.name = v.name → w = v) →
      v ∈ vs ∨ m.definition? v.name = some v → (m.putAll vs).definition? v.name = some v := by
    intro vs
    induction vs with
    | nil => exact fun m _ hdefined => hdefined.resolve_left List.not_mem_nil
    | cons w vs ih =>
        intro m hsame hdefined
        obtain ⟨hw, hrest⟩ := List.forall_mem_cons.1 hsame
        refine ih (m.putVariable w) hrest ?_
        by_cases hname : w.name = v.name
        · obtain rfl := hw hname
          exact .inr (definition?_putVariable_self m w)
        · rw [definition?_putVariable_of_ne (Ne.symm hname)]
          refine hdefined.imp_left fun hmem => (List.mem_cons.1 hmem).resolve_left ?_
          rintro rfl
          exact hname rfl
  exact hkept vs m hsame (.inl hmem)

/-- The global variables after those of a name were deleted. -/
theorem mem_globals_removeGlobal {name : String} {g : Global} :
    g ∈ (m.removeGlobal name).globals ↔ g ∈ m.globals ∧ g.name ≠ name := by
  rw [removeGlobal, List.mem_filter, decide_eq_true_eq]

/-! ### When operations succeed, and what they do -/

/-- A function can be declared unless a global variable has its name. -/
theorem declareFunction_eq_ok_iff {m' : Module} {name : String} :
    m.declareFunction name = .ok m' ↔ name ∉ m.globalNames ∧
      m' = if m.hasFunction name then m
        else { m with functions := m.functions ++ [⟨name, .externalLinkage, none, false⟩] } := by
  rw [declareFunction, ite_error_eq_ok_iff, isSome_global?_iff, ← apply_ite Except.ok,
    Except.ok.injEq, @eq_comm _ m']

/-- An intrinsic can be declared under a name that begins as those of intrinsics do. -/
theorem declareIntrinsic_eq_ok_iff {m' : Module} {name : String} :
    m.declareIntrinsic name = .ok m' ↔ (Symbol.after? Symbol.intrinsicHead name).isSome ∧
      m' = if m.hasIntrinsic name then m
        else { m with functions := m.functions ++ [⟨name, .externalLinkage, none, true⟩] } := by
  rw [declareIntrinsic, ite_error_eq_ok_iff, Option.isNone_iff_eq_none, ← ne_eq,
    ← Option.isSome_iff_ne_none, ← apply_ite Except.ok, Except.ok.injEq, @eq_comm _ m']

/-- A call can be added if there is the callee, and the caller has a body. -/
theorem addCall_eq_ok_iff {m' : Module} {caller callee : String} :
    m.addCall caller callee = .ok m' ↔
      callee ∈ m.functionNames ∧ ((m.function? caller).bind (·.body)).isSome ∧
      m' = { m with
        functions := updateFirst (·.name = caller)
          (fun f => { f with body := f.body.map (insertBeforeReturn (.call callee none)) })
          m.functions } := by
  rw [addCall, ite_error_eq_ok_iff, ite_error_eq_ok_iff, Decidable.not_not, hasFunction_iff,
    Option.isNone_iff_eq_none, ← ne_eq, ← Option.isSome_iff_ne_none, Except.ok.injEq, @eq_comm _ m']

/-- A variable can be defined unless a function has its name or its value refers to something that
is not there. -/
theorem defineVariable_eq_ok_iff {m' : Module} :
    m.defineVariable v = .ok m' ↔ v.name ∉ m.functionNames ∧
      (∀ name ∈ v.value.references, m.hasSymbol name) ∧ m' = m.putVariable v := by
  rw [defineVariable, ite_error_eq_ok_iff, hasFunction_iff]
  refine and_congr_right fun _ => ?_
  cases hmissing : v.value.references.find? (¬m.hasSymbol ·) with
  | some name =>
      have hunknown : ¬m.hasSymbol name := by simpa using List.find?_some hmissing
      exact iff_of_false nofun fun h => hunknown (h.1 name (List.mem_of_find?_eq_some hmissing))
  | none =>
      have hknown : ∀ name ∈ v.value.references, m.hasSymbol name := by
        simpa using List.find?_eq_none.1 hmissing
      rw [and_iff_right hknown, Except.ok.injEq, @eq_comm _ m']

/-- An increment can be inserted into the body of a function that is defined, if the intrinsic is
declared and the name variable holds bytes. -/
theorem insertIncrement_eq_ok_iff {m' : Module} {cursor cursor' : BodyCursor}
    {intrinsic : String} {increment : Increment} :
    m.insertIncrement cursor intrinsic increment = .ok (m', cursor') ↔
      m.hasIntrinsic intrinsic ∧ (m.bytes? increment.nameVariable).isSome ∧
      m.functions.any (definesFunction cursor.function) ∧
      m' = { m with
        functions := updateFirst (definesFunction cursor.function)
          (fun f => { f with
            body := f.body.map (·.insertIdx cursor.position (.call intrinsic (some increment))) })
          m.functions } ∧
      cursor' = { cursor with position := cursor.position + 1 } := by
  rw [insertIncrement, ite_error_eq_ok_iff, ite_error_eq_ok_iff, ite_error_eq_ok_iff,
    Decidable.not_not, Decidable.not_not, Option.isNone_iff_eq_none, ← ne_eq,
    ← Option.isSome_iff_ne_none, Except.ok.injEq, Prod.mk.injEq, @eq_comm _ m', @eq_comm _ cursor']

end Module

end SourceCoverage
