import Mathlib.Data.List.Basic
import SourceCoverage.Pipeline.Lowering
import SourceCoverage.Proofs.Symbols

/-!
# Shapes of Functions

What has been done to a function of a program under instrumentation can be told in three lists:
with which counts it was instrumented since the last lowering, with which counts before, and whom
it calls. This *shape* determines the body of the function: first come the increments, of the
latest instrumentation in front, then the updates that earlier increments were lowered to, then
the calls, and a return at the end.

## Main results

* `Shape.mem_references_body_iff`: what the body of a shape refers to.
* `Shape.body_addCall`, `Shape.body_instrument`, `Shape.body_lower`: what becomes of a body when
  a call is added, when increments are inserted, and when they are lowered.
-/

namespace SourceCoverage

/-! ### Shapes -/

/-- What has been done to a function: the counts of the instrumentations that are not lowered
yet, and of those that are, the latest first, the latter with whether their updates are atomic;
and the functions that it calls, in order. -/
structure Shape where
  pending : List UInt32 := []
  lowered : List (UInt32 × Bool) := []
  callees : List String := []

namespace Shape

variable {function : String} {shape : Shape}

/-- The shape of a function to which nothing has been done. -/
def empty : Shape := {}

/-- Something has been done to a function if its shape has something in it. -/
theorem ne_empty_iff :
    shape ≠ .empty ↔ shape.pending ≠ [] ∨ shape.lowered ≠ [] ∨ shape.callees ≠ [] := by
  obtain ⟨pending, lowered, callees⟩ := shape
  rw [ne_eq, empty, mk.injEq]
  tauto

/-- The increment of one counter. -/
def increment (function : String) (count index : UInt32) : Instruction :=
  .call Symbol.incrementIntrinsic (some (Instrumentation.increment ⟨⟨function⟩, count⟩ index))

/-- The increments of one instrumentation. -/
def increments (function : String) (count : UInt32) : List Instruction :=
  (List.range count.toNat).map fun index => increment function count (UInt32.ofNat index)

/-- The update of one counter. -/
def update (function : String) (atomic : Bool) (index : UInt32) : Instruction :=
  if atomic then .atomicAdd (Symbol.counters function) index
  else .loadAddStore (Symbol.counters function) index

/-- The updates that the increments of one instrumentation were lowered to. -/
def updates (function : String) (lowered : UInt32 × Bool) : List Instruction :=
  (List.range lowered.1.toNat).map fun index => update function lowered.2 (UInt32.ofNat index)

/-- The body of a function of this shape. -/
def body (function : String) (shape : Shape) : List Instruction :=
  shape.pending.flatMap (increments function) ++ (shape.lowered.flatMap (updates function)
    ++ (shape.callees.map (.call · none) ++ [.ret]))

/-- The shape with one more call. -/
def addCall (callee : String) (shape : Shape) : Shape :=
  { shape with callees := shape.callees ++ [callee] }

/-- The shape with one more instrumentation. -/
def instrument (count : UInt32) (shape : Shape) : Shape :=
  { shape with pending := count :: shape.pending }

/-- The shape with its increments lowered. -/
def lower (atomic : Bool) (shape : Shape) : Shape :=
  { shape with pending := [], lowered := shape.pending.map (·, atomic) ++ shape.lowered }

/-- The counts of a shape are positive, and its calls are of unreserved names. -/
structure Valid (shape : Shape) : Prop where
  pending : ∀ count ∈ shape.pending, count ≠ 0
  lowered : ∀ entry ∈ shape.lowered, entry.1 ≠ 0
  callees : ∀ callee ∈ shape.callees, Symbol.Unreserved callee

/-- Nothing is wrong with the shape of a new function. -/
theorem Valid.empty : Shape.empty.Valid := ⟨nofun, nofun, nofun⟩

/-- A call of an unreserved name keeps a shape valid. -/
theorem Valid.addCall (h : shape.Valid) {callee : String} (hcallee : Symbol.Unreserved callee) :
    (shape.addCall callee).Valid where
  pending := h.pending
  lowered := h.lowered
  callees := fun c hc => by
    rcases List.mem_append.1 hc with hc | hc
    · exact h.callees c hc
    · exact List.mem_singleton.1 hc ▸ hcallee

/-- An instrumentation with a positive count keeps a shape valid. -/
theorem Valid.instrument (h : shape.Valid) {count : UInt32} (hcount : count ≠ 0) :
    (shape.instrument count).Valid where
  pending := List.forall_mem_cons.2 ⟨hcount, h.pending⟩
  lowered := h.lowered
  callees := h.callees

/-- Lowering keeps a shape valid. -/
theorem Valid.lower (h : shape.Valid) (atomic : Bool) : (shape.lower atomic).Valid where
  pending := nofun
  lowered := fun entry hentry => by
    rcases List.mem_append.1 hentry with hentry | hentry
    · obtain ⟨count, hcount, rfl⟩ := List.mem_map.1 hentry
      exact h.pending count hcount
    · exact h.lowered entry hentry
  callees := h.callees

/-- Lowering of a shape without increments does nothing. -/
theorem lower_of_pending_eq_nil (h : shape.pending = []) (atomic : Bool) :
    shape.lower atomic = shape := by
  obtain ⟨pending, lowered, callees⟩ := shape
  obtain rfl : pending = [] := h
  rfl

/-! ### Bodies -/

/-- The instructions of a body. -/
theorem mem_body_iff {i : Instruction} :
    i ∈ shape.body function ↔ (∃ count ∈ shape.pending, i ∈ increments function count) ∨
      (∃ entry ∈ shape.lowered, i ∈ updates function entry) ∨
      (∃ callee ∈ shape.callees, i = .call callee none) ∨ i = .ret := by
  simp only [body, List.mem_append, List.mem_flatMap, List.mem_map, List.mem_singleton]
  refine or_congr_right (or_congr_right (or_congr_left ?_))
  exact exists_congr fun callee => and_congr_right fun _ => eq_comm

/-- What is made of every index below a count. -/
theorem mem_map_range_iff {α : Type} {count : UInt32} {f : UInt32 → α} {a : α} :
    a ∈ (List.range count.toNat).map (fun index => f (UInt32.ofNat index))
      ↔ ∃ index < count, f index = a := by
  rw [List.mem_map]
  constructor
  · rintro ⟨k, hk, rfl⟩
    have hk := List.mem_range.1 hk
    refine ⟨UInt32.ofNat k, ?_, rfl⟩
    rw [UInt32.lt_iff_toNat_lt, UInt32.toNat_ofNat_of_lt' (Nat.lt_trans hk count.toNat_lt)]
    exact hk
  · rintro ⟨index, hindex, rfl⟩
    exact ⟨index.toNat, List.mem_range.2 (UInt32.lt_iff_toNat_lt.1 hindex),
      by rw [UInt32.ofNat_toNat]⟩

/-- The increments of one instrumentation. -/
theorem mem_increments_iff {count : UInt32} {i : Instruction} :
    i ∈ increments function count ↔ ∃ index < count, increment function count index = i :=
  mem_map_range_iff

/-- The updates that one instrumentation was lowered to. -/
theorem mem_updates_iff {entry : UInt32 × Bool} {i : Instruction} :
    i ∈ updates function entry ↔ ∃ index < entry.1, update function entry.2 index = i :=
  mem_map_range_iff

/-- The references of an update. -/
theorem references_update {atomic : Bool} {index : UInt32} :
    (update function atomic index).references = [Symbol.counters function] := by
  cases atomic <;> rfl

/-- **What a body refers to**: the intrinsic and the name variable while there are increments,
the counter array as soon as there are updates, and the functions that it calls. -/
theorem mem_references_body_iff (h : shape.Valid) {name : String} :
    name ∈ (shape.body function).flatMap (·.references) ↔
      (shape.pending ≠ [] ∧ (name = Symbol.incrementIntrinsic ∨
        name = Symbol.nameVariable function)) ∨
      (shape.lowered ≠ [] ∧ name = Symbol.counters function) ∨ name ∈ shape.callees := by
  rw [List.mem_flatMap]
  constructor
  · rintro ⟨i, hi, hname⟩
    rcases mem_body_iff.1 hi with ⟨count, hcount, hi⟩ | ⟨entry, hentry, hi⟩ | ⟨callee, hcallee, rfl⟩
      | rfl
    · obtain ⟨index, -, rfl⟩ := mem_increments_iff.1 hi
      refine .inl ⟨List.ne_nil_of_mem hcount, ?_⟩
      simpa [increment, Instruction.references, Instrumentation.increment,
        Instrumentation.nameVariable] using hname
    · obtain ⟨index, -, rfl⟩ := mem_updates_iff.1 hi
      rw [references_update] at hname
      exact .inr (.inl ⟨List.ne_nil_of_mem hentry, List.mem_singleton.1 hname⟩)
    · obtain rfl := List.mem_singleton.1 hname
      exact .inr (.inr hcallee)
    · exact absurd hname List.not_mem_nil
  · rintro (⟨hpending, hname⟩ | ⟨hlowered, rfl⟩ | hcallee)
    · obtain ⟨count, hcount⟩ := List.exists_mem_of_ne_nil _ hpending
      refine ⟨_, mem_body_iff.2 (.inl ⟨count, hcount, mem_increments_iff.2
        ⟨0, UInt32.pos_iff_ne_zero.2 (h.pending count hcount), rfl⟩⟩), ?_⟩
      simpa [increment, Instruction.references, Instrumentation.increment,
        Instrumentation.nameVariable] using hname
    · obtain ⟨entry, hentry⟩ := List.exists_mem_of_ne_nil _ hlowered
      refine ⟨_, mem_body_iff.2 (.inr (.inl ⟨entry, hentry, mem_updates_iff.2
        ⟨0, UInt32.pos_iff_ne_zero.2 (h.lowered entry hentry), rfl⟩⟩)), ?_⟩
      rw [references_update]
      exact List.mem_singleton_self _
    · exact ⟨_, mem_body_iff.2 (.inr (.inr (.inl ⟨name, hcallee, rfl⟩))),
        List.mem_singleton_self _⟩

/-! ### What becomes of a body -/

/-- A call goes in front of the return that a body ends with, if there is no other one. -/
theorem insertBeforeReturn_append {call : Instruction} {front : List Instruction}
    (h : .ret ∉ front) : insertBeforeReturn call (front ++ [.ret]) = front ++ [call, .ret] := by
  induction front with
  | nil => rfl
  | cons i front ih =>
      rw [List.mem_cons, not_or] at h
      cases i with
      | ret => exact absurd rfl h.1
      | call callee increment => exact congrArg (.call callee increment :: ·) (ih h.2)
      | atomicAdd counters index => exact congrArg (.atomicAdd counters index :: ·) (ih h.2)
      | loadAddStore counters index => exact congrArg (.loadAddStore counters index :: ·) (ih h.2)

/-- **An added call** becomes the last one of the body. -/
theorem body_addCall {callee : String} :
    insertBeforeReturn (.call callee none) (shape.body function)
      = (shape.addCall callee).body function := by
  have hsplit : shape.body function = (shape.pending.flatMap (increments function)
      ++ (shape.lowered.flatMap (updates function) ++ shape.callees.map (.call · none)))
      ++ [.ret] := by
    simp [body]
  rw [hsplit, insertBeforeReturn_append]
  · simp [body, addCall]
  · simp only [List.mem_append, List.mem_flatMap, List.mem_map, not_or, not_exists, not_and]
    refine ⟨fun count _ hmem => ?_, fun entry _ hmem => ?_, fun callee _ => nofun⟩
    · obtain ⟨index, -, heq⟩ := mem_increments_iff.1 hmem
      cases heq
    · obtain ⟨index, -, heq⟩ := mem_updates_iff.1 hmem
      cases hatomic : entry.2 <;> simp [update, hatomic] at heq

/-- **Inserted increments** come in front of everything. -/
theorem body_instrument {count : UInt32} :
    increments function count ++ shape.body function
      = (shape.instrument count).body function := by
  simp [body, instrument]

/-- An increment whose name variable is known is lowered to the update of its counter. -/
theorem lower_increment {lowering : Lowering} {profiled : List ProfiledName} {count index : UInt32}
    (h : profiledFunction? profiled (Symbol.nameVariable function) = some function) :
    (increment function count index).lower lowering profiled
      = update function lowering.atomic index := by
  have hincrement : (increment function count index).increment?
      = some (Instrumentation.increment ⟨⟨function⟩, count⟩ index) := by
    rw [increment, Instruction.increment?, if_pos rfl]
  simp only [Instruction.lower, hincrement, Instrumentation.increment,
    Instrumentation.nameVariable, h, update]

/-- An instruction that is no increment is left alone. -/
theorem lower_eq_self {lowering : Lowering} {profiled : List ProfiledName} {i : Instruction}
    (h : i.increment? = none) : i.lower lowering profiled = i := by
  simp only [Instruction.lower, h]

/-- An update is no increment. -/
theorem increment?_update {atomic : Bool} {index : UInt32} :
    (update function atomic index).increment? = none := by
  cases atomic <;> rfl

/-- **Lowering a body** turns the pending increments into updates, if there are any. -/
theorem body_lower {lowering : Lowering} {profiled : List ProfiledName}
    (h : shape.pending ≠ [] →
      profiledFunction? profiled (Symbol.nameVariable function) = some function) :
    (shape.body function).map (·.lower lowering profiled)
      = (shape.lower lowering.atomic).body function := by
  have hpending : (shape.pending.flatMap (increments function)).map (·.lower lowering profiled)
      = (shape.pending.map (·, lowering.atomic)).flatMap (updates function) := by
    rw [List.map_flatMap, List.flatMap_map]
    refine List.flatMap_congr fun count hcount => ?_
    rw [increments, updates, List.map_map]
    exact List.map_congr_left fun index _ => lower_increment (h (List.ne_nil_of_mem hcount))
  have hlowered : (shape.lowered.flatMap (updates function)).map (·.lower lowering profiled)
      = shape.lowered.flatMap (updates function) := by
    refine (List.map_congr_left fun i hi => ?_).trans (List.map_id _)
    obtain ⟨entry, -, hi⟩ := List.mem_flatMap.1 hi
    obtain ⟨index, -, rfl⟩ := mem_updates_iff.1 hi
    exact lower_eq_self increment?_update
  have hcallees : (shape.callees.map (Instruction.call · none)).map (·.lower lowering profiled)
      = shape.callees.map (.call · none) := by
    rw [List.map_map]
    exact List.map_congr_left fun callee _ => rfl
  have hret : [Instruction.ret].map (·.lower lowering profiled) = [.ret] := rfl
  rw [body, List.map_append, List.map_append, List.map_append, hpending, hlowered, hcallees, hret]
  simp [body, lower]

end Shape

end SourceCoverage
