import SourceCoverage.Proofs.Building
import SourceCoverage.Proofs.Pipeline.Verification

/-!
# The Public Operations on Modules

Besides the steps of a program there are the operations that instrumentation is made of, and those
by which anyone defines intrinsics and data. They may be used in any order and with any names, so
that functions may share names with global variables and with each other, increments may be sent
through any intrinsic, and name variables may be defined anew. What is left are the checks that each
operation makes of its own: names of global variables stay distinct, everything that is referred to
is there, increments call intrinsics, and bodies end in returns. Operations only add to a module, so
that what was there to be referred to stays there.

## Main results

* `Module.Sound`, `Module.Sound.wellFormed`: the invariant, and what it says of references.
* `Module.Invariant`: what it takes for a property to be kept by all operations.
* `Action.Keeps`: what an operation keeps on its way, whether it succeeds or not.
* `Operation.keeps_invariant`: an invariant of construction is one of each operation.
* `sound_construct`: every module that the operations construct is sound.
-/

namespace SourceCoverage

/-! ### Lists -/

section UpdateFirst

variable {α : Type} {p : α → Bool} {f : α → α} {xs : List α}

/-- An element after an update of the first match was there before, or is the updated one. -/
theorem mem_of_mem_updateFirst {y : α} (h : y ∈ updateFirst p f xs) :
    y ∈ xs ∨ ∃ x, xs.find? p = some x ∧ f x = y := by
  induction xs with
  | nil => cases h
  | cons x xs ih =>
      rw [updateFirst] at h
      by_cases hx : p x = true
      · rw [if_pos hx] at h
        rcases List.mem_cons.1 h with rfl | h
        · exact .inr ⟨x, List.find?_cons_of_pos hx, rfl⟩
        · exact .inl (List.mem_cons_of_mem _ h)
      · rw [if_neg hx] at h
        rcases List.mem_cons.1 h with rfl | h
        · exact .inl (List.mem_cons_self ..)
        · rw [List.find?_cons_of_neg hx]
          exact (ih h).imp_left (List.mem_cons_of_mem _)

end UpdateFirst

/-- What is inserted before the end leaves the last element as it is. -/
theorem getLast?_insertIdx {α : Type} {xs : List α} {n : Nat} (h : n < xs.length) (x : α) :
    (xs.insertIdx n x).getLast? = xs.getLast? := by
  have hlength := List.length_insertIdx_of_le_length (Nat.le_of_lt h) x
  rw [List.getLast?_eq_getElem?, List.getLast?_eq_getElem?, hlength,
    List.getElem?_insertIdx_of_gt (by omega)]
  rfl

/-- What is inserted in front of a return is one more instruction. -/
theorem eq_or_mem_of_mem_insertBeforeReturn {call i : Instruction} {body : List Instruction}
    (h : i ∈ insertBeforeReturn call body) : i = call ∨ i ∈ body := by
  fun_induction insertBeforeReturn call body with
  | case1 => exact .inl (List.mem_singleton.1 h)
  | case2 rest => exact List.mem_cons.1 h
  | case3 first rest hne ih =>
      rcases List.mem_cons.1 h with rfl | h
      · exact .inr (List.mem_cons_self ..)
      · exact (ih h).imp_right (List.mem_cons_of_mem _)

/-- A body that ends in a return still does so with a call in front of its first one. -/
theorem getLast?_insertBeforeReturn {call : Instruction} {body : List Instruction}
    (h : body.getLast? = some .ret) : (insertBeforeReturn call body).getLast? = some .ret := by
  fun_induction insertBeforeReturn call body with
  | case1 => cases h
  | case2 rest => rwa [List.getLast?_cons_cons]
  | case3 first rest hne ih =>
      cases rest with
      | nil => exact absurd (Option.some.inj h) hne
      | cons second rest =>
          rw [List.getLast?_cons_cons] at h
          rw [List.getLast?_cons, ih h]
          rfl

namespace Module

variable {m m' : Module} {name : String}

/-! ### Extending a module -/

/-- The functions of a module as far as references to them can tell: by their names, and whether
they are intrinsics. -/
def signatures (m : Module) : List (String × Bool) :=
  m.functions.map fun f => (f.name, f.isIntrinsic)

/-- One module has the symbols of another one, and more behind them. -/
structure Extends (m m' : Module) : Prop where
  signatures : m.signatures <+: m'.signatures
  globals : m.globalNames ⊆ m'.globalNames

/-- The names of functions are a part of their signatures. -/
theorem functionNames_eq (m : Module) : m.functionNames = m.signatures.map (·.1) := by
  rw [signatures, List.map_map]
  rfl

/-- Whether a name is that of an intrinsic is told by the signatures. -/
theorem hasIntrinsic_eq (m : Module) :
    m.hasIntrinsic name = (m.signatures.find? (·.1 = name)).any (·.2) := by
  rw [hasIntrinsic, function?, signatures, List.find?_map, Option.any_map]
  rfl

namespace Extends

/-- A symbol stays one. -/
theorem hasSymbol (h : m.Extends m') (hname : m.hasSymbol name) : m'.hasSymbol name := by
  rw [hasSymbol_iff, functionNames_eq] at hname ⊢
  exact hname.imp (h.globals ·) ((h.signatures.sublist.map _).subset ·)

/-- An intrinsic stays one. -/
theorem hasIntrinsic (h : m.Extends m') (hname : m.hasIntrinsic name) : m'.hasIntrinsic name := by
  rw [hasIntrinsic_eq, Option.any_eq_true] at hname ⊢
  obtain ⟨signature, hfind, hintrinsic⟩ := hname
  exact ⟨signature, h.signatures.find?_eq_some hfind, hintrinsic⟩

end Extends

/-! ### Sound modules -/

/-- Whether an instruction can stand in a body of a module: what it refers to is there, and if it
is an increment, it calls an intrinsic. -/
structure Admits (m : Module) (i : Instruction) : Prop where
  resolved : ∀ name ∈ i.references, m.hasSymbol name
  intrinsic : ∀ callee increment, i = .call callee (some increment) → m.hasIntrinsic callee

/-- Whether a list of instructions can be a body of a module. -/
structure AdmitsBody (m : Module) (body : List Instruction) : Prop where
  instructions : ∀ i ∈ body, m.Admits i
  terminated : body.getLast? = some .ret

/-- The **invariant of construction**: the names of global variables are distinct, and every body
and every initial value is in order. -/
structure Sound (m : Module) : Prop where
  nodup : m.globalNames.Nodup
  bodies : ∀ f ∈ m.functions, ∀ body, f.body = some body → m.AdmitsBody body
  values : ∀ g ∈ m.globals, ∀ name ∈ g.definition.value.references, m.hasSymbol name

/-- What can stand in a module can stand in one that extends it. -/
theorem Admits.extend {i : Instruction} (hi : m.Admits i) (h : m.Extends m') : m'.Admits i where
  resolved := fun name hname => h.hasSymbol (hi.resolved name hname)
  intrinsic := fun callee increment heq => h.hasIntrinsic (hi.intrinsic callee increment heq)

/-- What can be a body of a module can be one of a module that extends it. -/
theorem AdmitsBody.extend {body : List Instruction} (hbody : m.AdmitsBody body)
    (h : m.Extends m') : m'.AdmitsBody body where
  instructions := fun i hi => (hbody.instructions i hi).extend h
  terminated := hbody.terminated

/-- In a sound module every reference resolves, increments call intrinsics, and bodies end in
returns. -/
theorem Sound.wellFormed (h : m.Sound) : m.WellFormed := by
  have hinstruction : ∀ f ∈ m.functions, ∀ i ∈ f.instructions, m.Admits i := by
    intro f hf i hi
    rw [Function.instructions] at hi
    cases hbody : f.body with
    | none =>
        rw [hbody] at hi
        cases hi
    | some body =>
        rw [hbody] at hi
        exact (h.bodies f hf body hbody).instructions i hi
  refine ⟨?_, ?_, ?_⟩
  · intro name hname
    rcases mem_references_iff.1 hname with ⟨f, hf, hmem⟩ | ⟨g, hg, hmem⟩
    · obtain ⟨i, hi, hmem⟩ := List.mem_flatMap.1 hmem
      exact (hinstruction f hf i hi).resolved name hmem
    · exact h.values g hg name hmem
  · intro f hf callee increment hmem
    exact (hinstruction f hf _ hmem).intrinsic callee increment rfl
  · intro f hf body hbody
    exact (h.bodies f hf body hbody).terminated

/-! ### Functions of sound modules -/

/-- An update that changes neither names nor what is an intrinsic extends a module. -/
theorem Extends.updateFirst {p : Function → Bool} {f : Function → Function}
    (hname : ∀ x, (f x).name = x.name) (hintrinsic : ∀ x, (f x).isIntrinsic = x.isIntrinsic) :
    m.Extends { m with functions := updateFirst p f m.functions } where
  signatures := by
    have hsame : (SourceCoverage.updateFirst p f m.functions).map
        (fun x => (x.name, x.isIntrinsic)) = m.signatures :=
      map_updateFirst_of_eq fun x _ _ => by rw [hname, hintrinsic]
    exact hsame ▸ List.prefix_refl _
  globals := fun _ => id

/-- One more function extends a module. -/
theorem Extends.append (f : Function) : m.Extends { m with functions := m.functions ++ [f] } where
  signatures := by
    rw [Module.signatures, Module.signatures, List.map_append]
    exact List.prefix_append ..
  globals := fun _ => id

/-- One more variable extends a module, as does a new definition of an old one. -/
theorem Extends.putVariable (m : Module) (v : Variable) : m.Extends (m.putVariable v) where
  signatures := by
    have hsame : (m.putVariable v).signatures = m.signatures := by
      rw [Module.signatures, Module.signatures, functions_putVariable]
    exact hsame ▸ List.prefix_refl _
  globals := fun _ hname => mem_globalNames_putVariable.2 (.inl hname)

namespace Sound

/-- A module is sound with other functions that extend it, if the bodies that are not its own can
be bodies of it. -/
theorem withFunctions (h : m.Sound) {functions : List Function}
    (hextends : m.Extends { m with functions })
    (hbodies : ∀ f ∈ functions, f ∈ m.functions ∨ ∀ body, f.body = some body → m.AdmitsBody body) :
    ({ m with functions } : Module).Sound where
  nodup := h.nodup
  bodies := by
    intro f hf body hbody
    rcases hbodies f hf with hold | hnew
    · exact (h.bodies f hold body hbody).extend hextends
    · exact (hnew body hbody).extend hextends
  values := fun g hg name hname => hextends.hasSymbol (h.values g hg name hname)

/-- Defining a function. -/
theorem addFunction (h : m.Sound) (name : String) (linkage : Linkage) :
    (m.addFunction name linkage).Sound := by
  have hret : m.AdmitsBody [.ret] := by
    refine ⟨fun i hi => ?_, rfl⟩
    obtain rfl := List.mem_singleton.1 hi
    exact ⟨nofun, nofun⟩
  rw [Module.addFunction]
  split
  · refine h.withFunctions (.updateFirst (fun _ => rfl) fun _ => rfl) fun f hf => ?_
    refine (mem_of_mem_updateFirst hf).imp_right ?_
    rintro ⟨old, hold, rfl⟩ body hbody
    obtain rfl := Option.some.inj hbody
    cases hoption : old.body with
    | none => exact hret
    | some body => exact h.bodies old (List.mem_of_find?_eq_some hold) body hoption
  · refine h.withFunctions (.append _) fun f hf => ?_
    refine (List.mem_append.1 hf).imp_right fun hf body hbody => ?_
    obtain rfl := List.mem_singleton.1 hf
    exact Option.some.inj hbody ▸ hret

/-- Declaring something as a function. -/
theorem declare (h : m.Sound) {f : Function} (hbody : f.body = none) :
    ({ m with functions := m.functions ++ [f] } : Module).Sound := by
  refine h.withFunctions (.append f) fun g hg => ?_
  refine (List.mem_append.1 hg).imp_right fun hg body hsome => ?_
  obtain rfl := List.mem_singleton.1 hg
  rw [hbody] at hsome
  cases hsome

/-- Declaring a function. -/
theorem declareFunction (h : m.Sound) (hok : m.declareFunction name = .ok m') : m'.Sound := by
  obtain ⟨-, rfl⟩ := declareFunction_eq_ok_iff.1 hok
  split
  · exact h
  · exact h.declare rfl

/-- Declaring an intrinsic. -/
theorem declareIntrinsic (h : m.Sound) (hok : m.declareIntrinsic name = .ok m') : m'.Sound := by
  obtain ⟨-, rfl⟩ := declareIntrinsic_eq_ok_iff.1 hok
  split
  · exact h
  · exact h.declare rfl

/-- Changing the body of a function into another one that can be a body. -/
theorem updateBody (h : m.Sound) {p : Function → Bool}
    {f : List Instruction → List Instruction}
    (hbody : ∀ x body, m.functions.find? p = some x → x.body = some body → m.AdmitsBody body →
      m.AdmitsBody (f body)) :
    Sound { m with
      functions := SourceCoverage.updateFirst p (fun x => { x with body := x.body.map f })
        m.functions } := by
  refine h.withFunctions (.updateFirst (fun _ => rfl) fun _ => rfl) fun g hg => ?_
  refine (mem_of_mem_updateFirst hg).imp_right ?_
  rintro ⟨x, hx, rfl⟩ _ hmap
  obtain ⟨body, hsome, rfl⟩ := Option.map_eq_some_iff.1 hmap
  exact hbody x body hx hsome (h.bodies x (List.mem_of_find?_eq_some hx) body hsome)

/-- Adding a call: the callee is there, and the return stays at the end. -/
theorem addCall (h : m.Sound) {caller callee : String} (hok : m.addCall caller callee = .ok m') :
    m'.Sound := by
  obtain ⟨hcallee, -, rfl⟩ := addCall_eq_ok_iff.1 hok
  refine h.updateBody fun _ body _ _ hadmits =>
    ⟨fun i hi => ?_, getLast?_insertBeforeReturn hadmits.terminated⟩
  rcases eq_or_mem_of_mem_insertBeforeReturn hi with rfl | hi
  · refine ⟨fun name hname => ?_, fun _ _ heq => ?_⟩
    · obtain rfl := List.mem_singleton.1 hname
      exact hasSymbol_iff.2 (.inr hcallee)
    · cases heq
  · exact hadmits.instructions i hi

/-- Defining a variable: all that it refers to is there. -/
theorem defineVariable (h : m.Sound) {v : Variable} (hok : m.defineVariable v = .ok m') :
    m'.Sound := by
  obtain ⟨-, hknown, rfl⟩ := defineVariable_eq_ok_iff.1 hok
  have hextends := Extends.putVariable m v
  refine ⟨nodup_globalNames_putVariable h.nodup, ?_, ?_⟩
  · intro f hf body hbody
    rw [functions_putVariable] at hf
    exact (h.bodies f hf body hbody).extend hextends
  · intro g hg name hname
    refine hextends.hasSymbol ?_
    rcases (mem_globals_putVariable h.nodup).1 hg with ⟨hg, -⟩ | rfl
    · exact h.values g hg name hname
    · exact hknown name hname

end Sound

/-! ### Increments -/

/-- An intrinsic is a symbol. -/
theorem hasSymbol_of_hasIntrinsic (h : m.hasIntrinsic name) : m.hasSymbol name := by
  rw [hasIntrinsic, Option.any_eq_true] at h
  obtain ⟨f, hf, -⟩ := h
  rw [hasSymbol, hf, Bool.or_eq_true]
  exact .inr rfl

/-- A variable that holds bytes is a symbol. -/
theorem hasSymbol_of_bytes? (h : (m.bytes? name).isSome) : m.hasSymbol name := by
  rw [bytes?] at h
  cases hglobal : m.global? name with
  | none => simp [hglobal] at h
  | some g =>
      rw [hasSymbol, hglobal, Bool.or_eq_true]
      exact .inl rfl

/-- Whether a cursor stands inside the body of its function, so that what is inserted there comes
before the return. -/
def Inside (m : Module) (cursor : BodyCursor) : Prop :=
  ∀ f, m.functions.find? (definesFunction cursor.function) = some f →
    cursor.position < f.instructions.length

/-- The start of a body is inside it, if no body is empty. -/
theorem inside_entry (h : ∀ f ∈ m.functions, f.body ≠ some []) {function : String}
    {cursor : BodyCursor} (hentry : m.entryCursor? function = some cursor) : m.Inside cursor := by
  rw [entryCursor?] at hentry
  split at hentry
  · obtain rfl := Option.some.inj hentry
    intro f hfind
    have hnonempty := h f (List.mem_of_find?_eq_some hfind)
    obtain ⟨body, hbody⟩ : ∃ body, f.body = some body := by
      have hdefines := List.find?_some hfind
      rw [definesFunction, Bool.and_eq_true] at hdefines
      exact Option.isSome_iff_exists.1 hdefines.2
    rw [hbody] at hnonempty
    rw [Function.instructions, hbody, Option.getD_some]
    exact List.length_pos_iff.2 fun hnil => hnonempty (congrArg some hnil)
  · cases hentry

/-- Behind what was inserted at a cursor inside a body, the cursor is inside it again. -/
theorem Inside.insert {cursor : BodyCursor} (h : m.Inside cursor) (call : Instruction) :
    Inside
      { m with
        functions := SourceCoverage.updateFirst (definesFunction cursor.function)
          (fun f => { f with body := f.body.map (·.insertIdx cursor.position call) }) m.functions }
      { cursor with position := cursor.position + 1 } := by
  intro f hfind
  have hkept : ∀ x, definesFunction cursor.function x = true → definesFunction cursor.function
      { x with body := x.body.map (·.insertIdx cursor.position call) } = true := by
    intro x hx
    rw [definesFunction, Bool.and_eq_true] at hx ⊢
    exact ⟨hx.1, by rw [Option.isSome_map]; exact hx.2⟩
  -- The function that is found is the one that was found before, with the longer body.
  rw [find?_updateFirst hkept] at hfind
  obtain ⟨old, hold, rfl⟩ := Option.map_eq_some_iff.1 hfind
  have hlt := h old hold
  rw [Function.instructions] at hlt ⊢
  cases hbody : old.body with
  | none =>
      rw [hbody] at hlt
      cases hlt
  | some body =>
      rw [hbody, Option.getD_some] at hlt
      have hlength := List.length_insertIdx_of_le_length (Nat.le_of_lt hlt) call
      rw [Option.map_some, Option.getD_some, hlength]
      exact Nat.succ_lt_succ hlt

/-- An increment can stand in a module if its intrinsic and its name variable are there. -/
theorem admits_increment {intrinsic : String} {increment : Increment}
    (hintrinsic : m.hasIntrinsic intrinsic) (hbytes : (m.bytes? increment.nameVariable).isSome) :
    m.Admits (.call intrinsic (some increment)) where
  resolved := by
    intro name hname
    rcases List.mem_pair.1 hname with rfl | rfl
    · exact hasSymbol_of_hasIntrinsic hintrinsic
    · exact hasSymbol_of_bytes? hbytes
  intrinsic := by
    intro callee _ heq
    cases heq
    exact hintrinsic

/-- Behind an increment that was inserted inside a body, the cursor is inside it. -/
theorem Inside.insertIncrement {cursor cursor' : BodyCursor} {intrinsic : String}
    {increment : Increment} (h : m.Inside cursor)
    (hok : m.insertIncrement cursor intrinsic increment = .ok (m', cursor')) :
    m'.Inside cursor' := by
  obtain ⟨-, -, -, rfl, rfl⟩ := insertIncrement_eq_ok_iff.1 hok
  exact h.insert _

/-- **Inserting an increment** at a cursor inside a body: the intrinsic and the name variable are
there, and the return stays at the end. -/
theorem Sound.insertIncrement (h : m.Sound) {cursor cursor' : BodyCursor} {intrinsic : String}
    {increment : Increment} (hinside : m.Inside cursor)
    (hok : m.insertIncrement cursor intrinsic increment = .ok (m', cursor')) : m'.Sound := by
  obtain ⟨hintrinsic, hbytes, -, rfl, rfl⟩ := insertIncrement_eq_ok_iff.1 hok
  refine h.updateBody fun f body hf hbody hadmits => ?_
  have hlt : cursor.position < body.length := by
    have hinstructions := hinside f hf
    rwa [Function.instructions, hbody] at hinstructions
  refine ⟨fun i hi => ?_, ?_⟩
  · rcases (List.mem_insertIdx (Nat.le_of_lt hlt)).1 hi with rfl | hi
    · exact admits_increment hintrinsic hbytes
    · exact hadmits.instructions i hi
  · -- Inside the body, what is inserted comes before the return.
    rw [getLast?_insertIdx hlt]
    exact hadmits.terminated

/-! ### Invariants of construction -/

/-- An **invariant of construction**: what every change that an operation makes keeps, given that
increments are inserted inside of bodies. As it leaves no body empty, this is where a cursor is that
started in front of one. -/
structure Invariant (P : Module → Prop) : Prop where
  nonempty {m : Module} : P m → ∀ f ∈ m.functions, f.body ≠ some []
  addFunction {m : Module} (name : String) (linkage : Linkage) :
    P m → P (m.addFunction name linkage)
  declareFunction {m m' : Module} {name : String} : P m → m.declareFunction name = .ok m' → P m'
  addCall {m m' : Module} {caller callee : String} : P m → m.addCall caller callee = .ok m' → P m'
  declareIntrinsic {m m' : Module} {name : String} : P m → m.declareIntrinsic name = .ok m' → P m'
  defineVariable {m m' : Module} {v : Variable} : P m → m.defineVariable v = .ok m' → P m'
  insertIncrement {m m' : Module} {cursor cursor' : BodyCursor} {intrinsic : String}
    {increment : Increment} : P m → m.Inside cursor →
      m.insertIncrement cursor intrinsic increment = .ok (m', cursor') → P m'

/-- Soundness is an invariant of construction. -/
theorem invariant_sound : Invariant Sound where
  nonempty := fun h f hf hempty => by cases (h.bodies f hf [] hempty).terminated
  addFunction := fun name linkage h => h.addFunction name linkage
  declareFunction := fun h hok => h.declareFunction hok
  addCall := fun h hok => h.addCall hok
  declareIntrinsic := fun h hok => h.declareIntrinsic hok
  defineVariable := fun h hok => h.defineVariable hok
  insertIncrement := fun h hinside hok => h.insertIncrement hinside hok

end Module

/-! ### What actions keep -/

namespace Action

variable {ε α β : Type} {inv before : Module → Prop} {after : α → Module → Prop}
  {later : β → Module → Prop}

/-- Whether an action keeps something about modules, however it ends. It may rely on something else
about the module that it starts from, and if it succeeds it makes something sure of the module that
it leads to and of its answer. -/
def Keeps (inv before : Module → Prop) (action : Action ε α) (after : α → Module → Prop) : Prop :=
  ∀ s : Session, inv s.module → before s.module →
    match action s with
    | .ok a s' => inv s'.module ∧ after a s'.module
    | .error _ s' => inv s'.module

namespace Keeps

/-- One action after another. -/
theorem bind {action : Action ε α} {next : α → Action ε β} (h : Keeps inv before action after)
    (hnext : ∀ a, Keeps inv (after a) (next a) later) :
    Keeps inv before (action >>= next) later := by
  intro s hinv hbefore
  have hfirst := h s hinv hbefore
  cases hrun : action s with
  | error e s' =>
      rw [hrun] at hfirst
      rw [bind_of_error hrun]
      exact hfirst
  | ok a s' =>
      rw [hrun] at hfirst
      rw [bind_of_ok hrun]
      exact hnext a s' hfirst.1 hfirst.2

/-- What is kept holds where the action ends. -/
theorem endOf {action : Action ε α} (h : Keeps inv before action after) {s : Session}
    (hinv : inv s.module) (hbefore : before s.module) :
    inv (SourceCoverage.endOf (action s)).module := by
  have hend := h s hinv hbefore
  cases hrun : action s with
  | ok a s' =>
      rw [hrun] at hend
      exact hend.1
  | error e s' =>
      rw [hrun] at hend
      exact hend

/-- An answer that is looked at afterwards. -/
theorem map {action : Action ε α} {after : Module → Prop}
    (h : Keeps inv before action fun _ => after) (f : α → β) :
    Keeps inv before (f <$> action) fun _ => after := by
  intro s hinv hbefore
  have hend := h s hinv hbefore
  change match EStateM.map f action s with | .ok _ s' => _ | .error _ s' => _
  rw [EStateM.map]
  cases hrun : action s with
  | ok a s' =>
      rw [hrun] at hend
      exact hend
  | error e s' =>
      rw [hrun] at hend
      exact hend

/-- An action need not rely on all that is known. -/
theorem weaken {action : Action ε α} {known : Module → Prop} (h : Keeps inv before action after)
    (hknown : ∀ m, known m → before m) : Keeps inv known action after :=
  fun s hinv hs => h s hinv (hknown s.module hs)

/-- An answer. -/
theorem pure (a : α) (h : ∀ m, inv m → before m → after a m) :
    Keeps inv before (Pure.pure a : Action ε α) after :=
  fun s hinv hbefore => ⟨hinv, h s.module hinv hbefore⟩

/-- A refusal. -/
theorem throw (e : ε) : Keeps inv before (MonadExcept.throw e : Action ε α) after :=
  fun _ hinv _ => hinv

/-- A look at the module. -/
theorem getModule {next : Module → Action ε β}
    (h : ∀ m, Keeps inv (fun m' => m' = m ∧ before m) (next m) later) :
    Keeps inv before (Action.getModule >>= next) later :=
  fun s hinv hbefore => h s.module s hinv ⟨rfl, hbefore⟩

/-- A report. -/
theorem report (event : Event) : Keeps inv before (Action.report event : Action ε Unit)
    fun _ => before :=
  fun _ hinv hbefore => ⟨hinv, hbefore⟩

/-- A change that the module may refuse. -/
theorem attempt {f : Module → Except ε Module} {after : Module → Prop}
    (h : ∀ m m', inv m → before m → f m = .ok m' → inv m' ∧ after m') :
    Keeps inv before (Action.attempt f) fun _ => after := by
  intro s hinv hbefore
  rw [Action.attempt]
  cases hok : f s.module with
  | error e => exact hinv
  | ok m => exact h s.module m hinv hbefore hok

/-- An action for each of several arguments, one after another. -/
theorem foldlM {γ : Type} {step : β → γ → Action ε β} {during : β → Module → Prop}
    (h : ∀ b c, Keeps inv (during b) (step b c) during) (cs : List γ) (b : β) :
    Keeps inv (during b) (cs.foldlM step b) during := by
  induction cs generalizing b with
  | nil => exact .pure b fun _ _ hduring => hduring
  | cons c cs ih => exact (h b c).bind ih

end Keeps

/-! ### Actions of construction -/

section Invariant

variable {P : Module → Prop} (h : Module.Invariant P)
include h

/-- Declaring an intrinsic. -/
theorem keeps_declareIntrinsic (name : String) : Keeps P (fun _ => True)
    (attempt (·.declareIntrinsic name)) fun _ _ => True :=
  .attempt fun _ _ hm _ hok => ⟨h.declareIntrinsic hm hok, trivial⟩

/-- Defining a variable. -/
theorem keeps_define (v : Variable) :
    Keeps P (fun _ => True) (defineVariable v) fun _ _ => True := by
  intro s hs _
  rw [defineVariable]
  cases hok : s.module.defineVariable v with
  | error e => exact hs
  | ok m => exact ⟨h.defineVariable hs hok, trivial⟩

/-- Inserting an increment. -/
theorem keeps_insert (cursor : BodyCursor) (intrinsic : String) (increment : Increment) :
    Keeps P (·.Inside cursor) (insert cursor intrinsic increment)
      fun cursor m => m.Inside cursor := by
  intro s hs hinside
  rw [insert]
  cases hok : s.module.insertIncrement cursor intrinsic increment with
  | error e => exact hs
  | ok inserted => exact ⟨h.insertIncrement hs hinside hok, hinside.insertIncrement hok⟩

/-- Preparing a function. -/
theorem keeps_preparation (function : String) (count : UInt32) :
    Keeps P (fun _ => True) (prepare function count) fun _ _ => True := by
  have hrest : Keeps P (fun _ => True) (do
      declareIncrement
      defineName function
      return (⟨⟨function⟩, count⟩ : Instrumentation)) fun _ _ => True :=
    (keeps_declareIntrinsic h Symbol.incrementIntrinsic).bind fun _ =>
      (keeps_define h (nameVariable function)).bind fun _ => .pure _ fun _ _ _ => trivial
  refine .getModule fun m => ?_
  split
  · exact (Keeps.throw _).bind fun _ => hrest
  · exact hrest.weaken fun _ _ => trivial

/-- Taking the start of a body. -/
theorem keeps_entryCursor (function : String) :
    Keeps P (fun _ => True) (entryCursor function) fun cursor m => m.Inside cursor := by
  intro s hs _
  rw [entryCursor, getModule_bind]
  cases hentry : s.module.entryCursor? function with
  | none => exact hs
  | some cursor => exact ⟨hs, Module.inside_entry (h.nonempty hs) hentry⟩

/-- Instrumenting a function. -/
theorem keeps_instrumentation (function : String) (count : UInt32) :
    Keeps P (fun _ => True) (instrument function count) fun _ _ => True := by
  refine (keeps_preparation h function count).bind fun i => ?_
  refine (keeps_entryCursor h function).bind fun cursor => ?_
  have hcounters : ∀ cursor index, Keeps P (·.Inside cursor)
      (insertCounter i cursor (UInt32.ofNat index)) fun cursor m => m.Inside cursor :=
    fun cursor index => (Keeps.report _).bind fun _ => keeps_insert h cursor _ _
  refine (Keeps.foldlM hcounters (List.range count.toNat) cursor).bind fun _ => ?_
  exact .pure i fun _ _ _ => trivial

end Invariant

/-- Inserting increments through one cursor. A refusal leaves module and cursor as they are. -/
theorem keeps_insertAll {P : Module → Prop} (h : Module.Invariant P) (cursor : BodyCursor)
    (calls : List (String × Increment)) :
    Keeps P (·.Inside cursor) (insertAll cursor calls) fun _ _ => True := by
  induction calls generalizing cursor with
  | nil => exact .pure [] fun _ _ _ => trivial
  | cons call calls ih =>
      obtain ⟨intrinsic, increment⟩ := call
      intro s hs hinside
      cases hok : s.module.insertIncrement cursor intrinsic increment with
      | error e =>
          have hrun : insert cursor intrinsic increment s = .error e s := by rw [insert, hok]
          simp only [insertAll, hrun]
          exact (ih cursor).map _ s hs hinside
      | ok inserted =>
          obtain ⟨m, cursor'⟩ := inserted
          have hrun : insert cursor intrinsic increment s = .ok cursor' { s with module := m } := by
            rw [insert, hok]
          simp only [insertAll, hrun]
          exact (ih cursor').map _ _ (h.insertIncrement hs hinside hok)
            (hinside.insertIncrement hok)

end Action

/-! ### Constructing modules -/

namespace Operation

/-- **Every operation keeps the invariants of construction**, whether it succeeds or not. -/
theorem keeps_invariant {P : Module → Prop} (h : Module.Invariant P) (operation : Operation) :
    Action.Keeps P (fun _ => True) operation.action fun _ _ => True := by
  cases operation with
  | build step =>
      cases step with
      | addFunction name linkage => exact fun s hs _ => ⟨h.addFunction name linkage hs, trivial⟩
      | declareFunction name =>
          exact .attempt fun _ _ hm _ hok => ⟨h.declareFunction hm hok, trivial⟩
      | addCall caller callee => exact .attempt fun _ _ hm _ hok => ⟨h.addCall hm hok, trivial⟩
      | instrument function count =>
          refine Action.Keeps.bind (Action.keeps_instrumentation h function count) fun _ => ?_
          exact .pure () fun _ _ _ => trivial
  | declareIntrinsic name => exact Action.keeps_declareIntrinsic h name
  | defineVariable v => exact Action.keeps_define h v
  | prepare function count =>
      refine Action.Keeps.bind (Action.keeps_preparation h function count) fun _ => ?_
      exact .pure () fun _ _ _ => trivial
  | insert function calls =>
      refine Action.Keeps.bind (Action.keeps_entryCursor h function) fun cursor => ?_
      exact (Action.keeps_insertAll h cursor calls).bind fun _ => .pure () fun _ _ _ => trivial

/-- One operation in an invariant of construction. -/
theorem invariant_perform {P : Module → Prop} (h : Module.Invariant P) {s : Session}
    (hs : P s.module) (operation : Operation) : P (operation.perform s).module :=
  (operation.keeps_invariant h).endOf hs trivial

end Operation

/-- **Every module that is constructed is sound.** -/
theorem sound_construct (name : String) (operations : List Operation) :
    (construct name operations).Sound := by
  refine performAll_keeps (P := (·.module.Sound)) (List.forall_mem_map.2 fun operation _ s hs => ?_)
    ⟨List.nodup_nil, nofun, nofun⟩
  exact operation.invariant_perform Module.invariant_sound hs

end SourceCoverage
