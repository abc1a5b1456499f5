import SourceCoverage.Proofs.Interleaving

/-!
# Counter Updates and Their Bounds

Every counter update names the counter array of a function of the program, and the array is there.
How long it is, is the count of the latest instrumentation of the function that has been lowered:
each lowering takes the count of the first increment that it finds, which belongs to the latest
instrumentation, and makes the array anew. The updates that earlier instrumentations were lowered
to stay as they are. So the updates of a function are in bounds exactly if none of the counts that
have been lowered exceeds the latest one.

## Main results

* `Module.Follows.mem_updates_iff`, `Module.Follows.counterCount?_eq`: updates and the lengths of
  counter arrays in the history.
* `updatesAgree_work`: what holds of counter updates after any work on a module.
* `inBounds_work`: where a function is always instrumented with the same count, all is in bounds.
-/

namespace SourceCoverage

/-! ### Updates and bounds -/

/-- An update of an element of a counter array. -/
structure CounterUpdate where
  counters : String
  index : UInt32
  deriving Repr, DecidableEq

/-- The update that an instruction makes. -/
def Instruction.update? : Instruction → Option CounterUpdate
  | atomicAdd counters index => some ⟨counters, index⟩
  | loadAddStore counters index => some ⟨counters, index⟩
  | _ => none

namespace Module

/-- The updates in the bodies of a module, in order. -/
def updates (m : Module) : List CounterUpdate :=
  m.functions.flatMap fun f => f.instructions.filterMap (·.update?)

/-- The number of counters of the global variable of a name, if it is a counter array. -/
def counterCount? (m : Module) (name : String) : Option UInt32 :=
  (m.global? name).bind fun g =>
    match g.definition.value with
    | .counters count => some count
    | _ => none

end Module

/-- Whether an update names a counter array of a module and an element of it. -/
def CounterUpdate.InBounds (m : Module) (update : CounterUpdate) : Prop :=
  ∃ count, m.counterCount? update.counters = some count ∧ update.index < count

/-- Whether all updates of a module are in bounds. -/
def Module.InBounds (m : Module) : Prop := ∀ update ∈ m.updates, update.InBounds m

/-- The predecessor of a positive count. -/
theorem toNat_sub_one {count : UInt32} (h : count ≠ 0) : (count - 1).toNat + 1 = count.toNat := by
  have hpositive : 0 < count.toNat := UInt32.lt_iff_toNat_lt.1 (UInt32.pos_iff_ne_zero.2 h)
  have hone : (1 : UInt32) ≤ count := UInt32.le_iff_toNat_le.2 hpositive
  rw [UInt32.toNat_sub_of_le _ _ hone]
  exact Nat.sub_add_cancel hpositive

/-! ### Updates in the history -/

namespace Shape

variable {function : String} {shape : Shape}

/-- The updates in a body are those of the lowered instrumentations. -/
theorem mem_filterMap_update?_body {update : CounterUpdate} :
    update ∈ (shape.body function).filterMap (·.update?) ↔ ∃ entry ∈ shape.lowered,
      ∃ index < entry.1, update = ⟨Symbol.counters function, index⟩ := by
  rw [List.mem_filterMap]
  constructor
  · rintro ⟨i, hi, hupdate⟩
    rcases mem_body_iff.1 hi with ⟨count, -, hi⟩ | ⟨entry, hentry, hi⟩ | ⟨callee, -, rfl⟩ | rfl
    · obtain ⟨index, -, rfl⟩ := mem_increments_iff.1 hi
      cases hupdate
    · obtain ⟨index, hindex, rfl⟩ := mem_updates_iff.1 hi
      refine ⟨entry, hentry, index, hindex, ?_⟩
      rw [Shape.update] at hupdate
      split at hupdate
      · exact (Option.some.inj hupdate).symm
      · exact (Option.some.inj hupdate).symm
    · cases hupdate
    · cases hupdate
  · rintro ⟨entry, hentry, index, hindex, rfl⟩
    refine ⟨_, mem_body_iff.2 (.inr (.inl ⟨entry, hentry,
      mem_updates_iff.2 ⟨index, hindex, rfl⟩⟩)), ?_⟩
    rw [Shape.update]
    split
    · rfl
    · rfl

end Shape

namespace Module.Follows

variable {m : Module} {history : History}

/-- **The updates of a module** are those of the lowered instrumentations. -/
theorem mem_updates_iff (h : m.Follows history) {update : CounterUpdate} :
    update ∈ m.updates ↔ ∃ function, ∃ count ∈ (history function).tally.lowered,
      ∃ index < count, update = ⟨Symbol.counters function, index⟩ := by
  rw [updates, List.mem_flatMap]
  constructor
  · rintro ⟨f, hf, hmem⟩
    rw [Function.instructions] at hmem
    cases hbody : f.body with
    | none =>
        rw [hbody] at hmem
        cases hmem
    | some body =>
        obtain ⟨rfl, -⟩ := h.body_eq hf hbody
        rw [hbody] at hmem
        obtain ⟨entry, hentry, hindex⟩ := Shape.mem_filterMap_update?_body.1 hmem
        exact ⟨f.name, entry.1, List.mem_map_of_mem hentry, hindex⟩
  · rintro ⟨function, count, hcount, hindex⟩
    obtain ⟨entry, hentry, rfl⟩ := List.mem_map.1 hcount
    have hne : history function ≠ .empty :=
      Shape.ne_empty_iff.2 (.inr (.inl (List.ne_nil_of_mem hentry)))
    obtain ⟨f, hf, rfl, hbody⟩ := h.exists_definition hne
    refine ⟨f, hf, ?_⟩
    rw [Function.instructions, hbody]
    exact Shape.mem_filterMap_update?_body.2 ⟨entry, hentry, hindex⟩

/-- **The length of a counter array** is the count of the latest lowered instrumentation. -/
theorem counterCount?_eq (h : m.Follows history) (function : String) :
    m.counterCount? (Symbol.counters function) = (history function).tally.lowered.head? := by
  rw [Shape.tally, List.head?_map]
  cases hentry : (history function).lowered.head? with
  | none =>
      have hglobal : m.global? (Symbol.counters function) = none := by
        rw [← Option.not_isSome_iff_eq_none, isSome_global?_iff]
        refine h.not_mem_globalNames (.counters function) ?_
        rintro g ⟨entry, hsome, -⟩
        rw [hentry] at hsome
        cases hsome
      rw [counterCount?, hglobal]
      rfl
  | some entry =>
      have hglobal := (global?_eq_some_iff h.globalNames).2 ⟨h.counters_mem hentry, rfl⟩
      rw [counterCount?, show Symbol.counters function = Global.name
        ⟨counterArray function entry.1, some function⟩ from rfl, hglobal]
      rfl

/-- The counts that have been lowered are positive. -/
theorem ne_zero_of_mem_lowered (h : m.Follows history) {function : String} {count : UInt32}
    (hcount : count ∈ (history function).tally.lowered) : count ≠ 0 := by
  obtain ⟨entry, hentry, rfl⟩ := List.mem_map.1 hcount
  exact (h.valid function).lowered entry hentry

/-- **When the updates of a function are in bounds**: if no count that has been lowered exceeds the
latest one. -/
theorem inBounds_iff (h : m.Follows history) (function : String) :
    (∀ update ∈ m.updates, update.counters = Symbol.counters function → update.InBounds m) ↔
      ∀ count ∈ (history function).tally.lowered,
        ∀ latest ∈ (history function).tally.lowered.head?, count ≤ latest := by
  constructor
  · intro hbounds count hcount latest hlatest
    have hpred := toNat_sub_one (h.ne_zero_of_mem_lowered hcount)
    have hindex : count - 1 < count := by
      rw [UInt32.lt_iff_toNat_lt]
      omega
    obtain ⟨size, hsize, hlt⟩ := hbounds ⟨Symbol.counters function, count - 1⟩
      (h.mem_updates_iff.2 ⟨function, count, hcount, count - 1, hindex, rfl⟩) rfl
    rw [h.counterCount?_eq, Option.mem_def.1 hlatest] at hsize
    obtain rfl := Option.some.inj hsize
    replace hlt : count - 1 < latest := hlt
    rw [UInt32.lt_iff_toNat_lt] at hlt
    rw [UInt32.le_iff_toNat_le]
    omega
  · rintro hall update hupdate hname
    obtain ⟨own, count, hcount, index, hindex, rfl⟩ := h.mem_updates_iff.1 hupdate
    obtain rfl := OwnSymbol.counters.inj
      ((OwnSymbol.name_inj (a := .counters own) (b := .counters function)).1 hname)
    cases hlatest : (history own).tally.lowered.head? with
    | none =>
        rw [List.head?_eq_none_iff.1 hlatest] at hcount
        cases hcount
    | some latest =>
        refine ⟨latest, (h.counterCount?_eq own).trans hlatest, ?_⟩
        have hle := hall count hcount latest hlatest
        exact UInt32.lt_of_lt_of_le hindex hle

end Module.Follows

/-! ### The work on a module -/

/-- What holds of the counter updates of a module whose functions were instrumented as tallies
tell. An update names the counter array of a function; the array is there, with as many counters
as the latest lowered instrumentation of the function had; and the index is below the count of
some lowered instrumentation. The updates of a function are in bounds exactly if none of its
lowered counts exceeds the latest one. -/
structure UpdatesAgree (m : Module) (tallies : String → Tally) : Prop where
  named : ∀ update ∈ m.updates, ∃ function latest,
    update.counters = Symbol.counters function ∧
    m.counterCount? update.counters = some latest ∧
    (tallies function).lowered.head? = some latest ∧
    ∃ count ∈ (tallies function).lowered, update.index < count
  inBounds_iff : ∀ function,
    (∀ update ∈ m.updates, update.counters = Symbol.counters function → update.InBounds m) ↔
      ∀ count ∈ (tallies function).lowered,
        ∀ latest ∈ (tallies function).lowered.head?, count ≤ latest

/-- **Counter updates after any work on a module**: building steps that give unreserved names, and
runs, which may compress in any way, in any order. -/
theorem updatesAgree_work (name : String) {stages : List Stage}
    (hstages : ∀ stage ∈ stages, stage.Unreserved) :
    UpdatesAgree (work stages (.start name)).module
      (tallies stages (.start name) fun _ => {}) := by
  obtain ⟨history, hfollows, htally⟩ := follows_work (s := .start name) (.empty name)
    (fun _ => {}) (fun _ => rfl) hstages
  refine ⟨fun update hupdate => ?_, fun function => ?_⟩
  · obtain ⟨function, count, hcount, index, hindex, rfl⟩ := hfollows.mem_updates_iff.1 hupdate
    rw [htally] at hcount
    cases hlatest : (tallies stages (.start name) (fun _ => {}) function).lowered.head? with
    | none =>
        rw [List.head?_eq_none_iff.1 hlatest] at hcount
        cases hcount
    | some latest =>
        refine ⟨function, latest, rfl, ?_, hlatest, count, hcount, hindex⟩
        rw [hfollows.counterCount?_eq, htally, hlatest]
  · rw [← htally]
    exact hfollows.inBounds_iff function

/-- A function that is instrumented, lowered, instrumented with more counters, and lowered again in
a run with coverage. -/
def relowered : List Stage :=
  [.build (.addFunction "f" .externalLinkage), .build (.instrument "f" 2),
    .run Zlib.compress ⟨"instrprof", none⟩, .build (.instrument "f" 3),
    .run Zlib.compress ⟨"globaldce", some ⟨"a.c", true, true, .elf⟩⟩]

/-- Its counter updates agree with its tallies. -/
theorem updatesAgree_relowered : (∀ stage ∈ relowered, stage.Unreserved) ∧
    UpdatesAgree (work relowered (.start "m")).module
      (tallies relowered (.start "m") fun _ => {}) :=
  ⟨by decide, updatesAgree_work "m" (by decide)⟩

/-- **Where a function is always instrumented with the same count**, all updates are in bounds. -/
theorem inBounds_work (name : String) {stages : List Stage}
    (hstages : ∀ stage ∈ stages, stage.Unreserved)
    (hcounts : ∀ function count count', .build (.instrument function count) ∈ stages →
      .build (.instrument function count') ∈ stages → count = count') :
    (work stages (.start name)).module.InBounds := by
  obtain ⟨history, hfollows, htally⟩ := follows_work (s := .start name) (.empty name)
    (fun _ => {}) (fun _ => rfl) hstages
  have horigin : ∀ function, ∀ count ∈ (history function).tally.lowered,
      .build (.instrument function count) ∈ stages := by
    intro function count hcount
    rw [htally] at hcount
    rcases mem_tallies (List.mem_append_right _ hcount) with hnone | hmem
    · cases hnone
    · exact hmem
  intro update hupdate
  obtain ⟨function, count, hcount, index, hindex, rfl⟩ := hfollows.mem_updates_iff.1 hupdate
  refine (hfollows.inBounds_iff function).2 ?_ _ hupdate rfl
  intro count hcount latest hlatest
  have hsame := hcounts function count latest (horigin function count hcount)
    (horigin function latest (List.mem_of_mem_head? hlatest))
  exact hsame ▸ UInt32.le_refl _

/-- A function that is instrumented with three counters and then once more with a single one,
before both instrumentations are lowered. -/
def reinstrumented : List Stage :=
  [.build (.addFunction "f" .externalLinkage), .build (.instrument "f" 3),
    .build (.instrument "f" 1), .run Zlib.compress ⟨"instrprof", none⟩]

/-- Updates may be out of bounds even where every stage of the work succeeds. -/
theorem not_inBounds_reinstrumented : (∀ stage ∈ reinstrumented, stage.Unreserved) ∧
    SucceedEach reinstrumented (.start "m") ∧
    ¬(work reinstrumented (.start "m")).module.InBounds := by
  let built : List Stage := [.build (.addFunction "f" .externalLinkage),
    .build (.instrument "f" 3), .build (.instrument "f" 1)]
  let s : Session := work built (.start "m")
  let config : RunConfig := ⟨"instrprof", none⟩
  have hdefines : s.module.Defines "f" := by decide
  have htallies : tallies built (.start "m") (fun _ => {}) "f" = ⟨[1, 3], []⟩ := by decide
  have hbuilt : ∀ stage ∈ built, stage.Unreserved := by decide
  obtain ⟨history, hfollows, htally⟩ := follows_work (s := .start "m") (.empty "m")
    (fun _ => {}) (fun _ => rfl) hbuilt
  have hbuild : config.pipeline = .ok ⟨[.lowerIncrements ⟨false⟩]⟩ :=
    Action.pipeline_plain_eq_ok_iff.2 (by cbv)
  obtain ⟨m, next, heffect, hnext, hshape, hok, -⟩ :=
    Action.runWith_spec .full rfl hfollows (config.within_full.symm ▸ hbuild)
  obtain ⟨report, s', hrun, hcompletes⟩ := hok fun _ => nofun
  have hwork : work reinstrumented (.start "m") = s' := Stage.perform_run_of_ok hrun
  refine ⟨by decide, ⟨⟨_, rfl⟩, ⟨_, rfl⟩, ⟨_, rfl⟩, ⟨report, s', hrun⟩, trivial⟩, fun hbounds => ?_⟩
  rw [hwork, hcompletes.plain rfl] at hbounds
  have hlower : s.module.lower ⟨false⟩ = .ok m := by
    cases hresult : s.module.lower ⟨false⟩ with
    | error e =>
        rw [effectOf, Pass.effect, hresult] at heffect
        cases heffect
    | ok lowered =>
        rw [effectOf, Pass.effect, hresult] at heffect
        exact heffect
  have hlowered : (next "f").tally = ⟨[], [1, 3]⟩ := by
    rw [(hshape "f" ((Module.defines_lower hlower).2 hdefines)).2, Shape.tally_lowerIf hbuild,
      htally, htallies, Tally.after, hbuild]
    rfl
  have hall := (hnext.inBounds_iff "f").1 (fun update hupdate _ => hbounds update hupdate)
  rw [hlowered] at hall
  exact absurd (hall 3 (by decide) 1 rfl) (by decide)

end SourceCoverage
