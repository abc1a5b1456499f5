import SourceCoverage.Mapping.Encoding
import SourceCoverage.Proofs.Results

/-!
# What the Encoder Accepts

The encoder looks at one region after another before it writes anything. Which regions it accepts
is said here by a conjunction, `Region.Representable`, that knows nothing of the order of the
checks.

## Main results

* `Region.check_eq_ok_iff`: the regions that pass the checks are the representable ones.
* `Mapping.check_eq_error_iff`: a mapping fails the checks as its first refused region does.
* `Mapping.canonical_eq_ok_iff`, `Mapping.encode_eq_ok_iff`: a mapping has an encoding when its
  regions are representable and its expressions can be numbered, and the encoding is the written
  form of its canonical form.
* `Mapping.encode_eq_error_iff`: where the expressions can be numbered, a region is to blame.
-/

namespace SourceCoverage

/-- Whether a region can be represented in a mapping of `fileCount` files: it and what it expands
lie in files of the mapping, lines and columns count from one, the end column leaves the marker
bit free, and the end does not lie before the start. -/
structure Region.Representable (fileCount : Nat) (region : Region) : Prop where
  file : region.file.toNat < fileCount
  expansion : ∀ file, region.kind = .expansion file → file.toNat < fileCount
  positive : region.span.lineStart ≠ 0 ∧ region.span.columnStart ≠ 0 ∧ region.span.lineEnd ≠ 0 ∧
    region.span.columnEnd ≠ 0
  column : region.span.columnEnd < gapBit
  forward : region.span.lineStart < region.span.lineEnd ∨
    region.span.lineStart = region.span.lineEnd ∧ region.span.columnStart ≤ region.span.columnEnd

/-- The checks, as a conjunction of what each of them lets pass. -/
theorem Region.check_eq_ok {fileCount : Nat} {region : Region} :
    region.check fileCount = .ok () ↔ ¬fileCount ≤ region.file.toNat ∧
      (∀ file, region.kind = .expansion file → ¬fileCount ≤ file.toNat) ∧
      ¬(region.span.lineStart = 0 ∨ region.span.columnStart = 0 ∨ region.span.lineEnd = 0 ∨
        region.span.columnEnd = 0) ∧
      ¬gapBit ≤ region.span.columnEnd ∧
      ¬(region.span.lineEnd < region.span.lineStart ∨
        region.span.lineEnd = region.span.lineStart ∧
          region.span.columnEnd < region.span.columnStart) := by
  obtain ⟨kind, file, lineStart, columnStart, lineEnd, columnEnd⟩ := region
  cases kind <;>
    simp only [check, throw, throwThe, MonadExceptOf.throw, bind, Except.bind, pure, Except.pure,
      ite_error_eq_ok_iff, and_true, reduceCtorEq, false_implies, implies_true, true_and,
      RegionKind.expansion.injEq, forall_eq']

/-- The regions that pass the checks are the representable ones. -/
theorem Region.check_eq_ok_iff {fileCount : Nat} {region : Region} :
    region.check fileCount = .ok () ↔ region.Representable fileCount := by
  rw [check_eq_ok]
  constructor
  · rintro ⟨hfile, hexpansion, hpositive, hcolumn, hforward⟩
    refine ⟨by omega, fun file hkind => Nat.lt_of_not_le (hexpansion file hkind), ?_,
      UInt32.not_le.1 hcolumn, ?_⟩
    · simpa only [not_or] using hpositive
    · simp only [UInt32.lt_iff_toNat_lt, UInt32.le_iff_toNat_le, ← UInt32.toNat_inj] at hforward ⊢
      omega
  · rintro ⟨hfile, hexpansion, hpositive, hcolumn, hforward⟩
    refine ⟨by omega, fun file hkind => Nat.not_le_of_lt (hexpansion file hkind), ?_,
      UInt32.not_le.2 hcolumn, ?_⟩
    · simpa only [not_or] using hpositive
    · simp only [UInt32.lt_iff_toNat_lt, UInt32.le_iff_toNat_le, ← UInt32.toNat_inj] at hforward ⊢
      omega

/-- What a region can be refused for, and the error that says so: a file that the mapping does not
have, its own before the one that it expands, and then its span. -/
inductive Region.Refusal (fileCount : Nat) (region : Region) : MappingError → Prop
  | file : fileCount ≤ region.file.toNat →
      Refusal fileCount region (.fileOutOfRange region.file fileCount)
  | expansion {file : UInt32} : region.file.toNat < fileCount → region.kind = .expansion file →
      fileCount ≤ file.toNat → Refusal fileCount region (.expansionOutOfRange file fileCount)
  | span (fault : SpanFault) : region.file.toNat < fileCount →
      (∀ file, region.kind = .expansion file → file.toNat < fileCount) →
      Refusal fileCount region (.invalidSpan region.span.lineStart region.span.columnStart
        region.span.lineEnd region.span.columnEnd fault)

/-- A region that fails the checks is refused for one of these reasons. -/
theorem Region.refusal_of_check {fileCount : Nat} {region : Region} {e : MappingError}
    (h : region.check fileCount = .error e) : Refusal fileCount region e := by
  obtain ⟨kind, file, lineStart, columnStart, lineEnd, columnEnd⟩ := region
  -- behind the checks of the files, whatever fails is a fault of the span
  have hspan : ∀ {p q r : Prop} [Decidable p] [Decidable q] [Decidable r]
      {invalid : SpanFault → MappingError},
      (if p then .error (invalid .zeroCoordinate) else if q then .error (invalid .markerBit)
        else if r then .error (invalid .reversed) else Except.ok ()) = .error e →
      ∃ fault, e = invalid fault := by
    intro p q r _ _ _ invalid hfails
    rcases ite_error_eq_error_iff.1 hfails with ⟨-, rfl⟩ | ⟨-, hfails⟩
    · exact ⟨_, rfl⟩
    · rcases ite_error_eq_error_iff.1 hfails with ⟨-, rfl⟩ | ⟨-, hfails⟩
      · exact ⟨_, rfl⟩
      · rcases ite_error_eq_error_iff.1 hfails with ⟨-, rfl⟩ | ⟨-, hfails⟩
        · exact ⟨_, rfl⟩
        · cases hfails
  cases kind with
  | expansion expanded =>
      simp only [check, throw, throwThe, MonadExceptOf.throw, bind, Except.bind, pure,
        Except.pure] at h
      rcases ite_error_eq_error_iff.1 h with ⟨hfile, rfl⟩ | ⟨hfile, h⟩
      · exact .file hfile
      · rcases ite_error_eq_error_iff.1 h with ⟨hexpanded, rfl⟩ | ⟨hexpanded, h⟩
        · exact .expansion (Nat.lt_of_not_le hfile) rfl hexpanded
        · obtain ⟨fault, rfl⟩ := hspan h
          refine .span fault (Nat.lt_of_not_le hfile) fun file' hkind => ?_
          obtain rfl := RegionKind.expansion.inj hkind
          exact Nat.lt_of_not_le hexpanded
  | _ =>
      simp only [check, throw, throwThe, MonadExceptOf.throw, bind, Except.bind, pure,
        Except.pure] at h
      rcases ite_error_eq_error_iff.1 h with ⟨hfile, rfl⟩ | ⟨hfile, h⟩
      · exact .file hfile
      · obtain ⟨fault, rfl⟩ := hspan h
        exact .span fault (Nat.lt_of_not_le hfile) (by simp)

/-- A region of the mapping that expands no file of the mapping is refused for that. -/
theorem Region.check_of_expansion {fileCount : Nat} {region : Region} {file : UInt32}
    (hfile : region.file.toNat < fileCount) (hkind : region.kind = .expansion file)
    (hexpansion : fileCount ≤ file.toNat) :
    region.check fileCount = .error (.expansionOutOfRange file fileCount) := by
  obtain ⟨kind, file', lineStart, columnStart, lineEnd, columnEnd⟩ := region
  subst hkind
  simp only [check, throw, throwThe, MonadExceptOf.throw, bind, Except.bind, pure, Except.pure]
  rw [if_neg (by simpa using hfile), if_pos hexpansion]

/-- Every element passes a check exactly when none of them fails it. -/
theorem forM_eq_ok_iff {α ε : Type} {f : α → Except ε Unit} {xs : List α} :
    xs.forM f = .ok () ↔ ∀ x ∈ xs, f x = .ok () := by
  induction xs with
  | nil => simp [pure, Except.pure]
  | cons x xs ih =>
      rw [List.forall_mem_cons, ← ih]
      change (f x >>= fun _ => xs.forM f) = .ok () ↔ _
      cases f x with
      | error e => simp [bind, Except.bind]
      | ok _ => simp [bind, Except.bind]

/-- A check fails on a list as it does on the first element that fails it. -/
theorem forM_eq_error_iff {α ε : Type} {f : α → Except ε Unit} {xs : List α} {e : ε} :
    xs.forM f = .error e ↔ ∃ before x after, xs = before ++ x :: after ∧
      (∀ y ∈ before, f y = .ok ()) ∧ f x = .error e := by
  induction xs with
  | nil => simp [pure, Except.pure]
  | cons x xs ih =>
      change (f x >>= fun _ => xs.forM f) = .error e ↔ _
      cases hx : f x with
      | error e' =>
          constructor
          · intro h
            exact ⟨[], x, xs, rfl, by simp, hx.trans h⟩
          · rintro ⟨before, y, after, hxs, hbefore, hy⟩
            cases before with
            | nil =>
                obtain ⟨rfl, rfl⟩ := List.cons.inj hxs
                exact hx.symm.trans hy
            | cons z before =>
                obtain ⟨rfl, -⟩ := List.cons.inj hxs
                cases hx.symm.trans (hbefore _ (List.mem_cons_self ..))
      | ok _ =>
          change xs.forM f = .error e ↔ _
          rw [ih]
          constructor
          · rintro ⟨before, y, after, rfl, hbefore, hy⟩
            exact ⟨x :: before, y, after, rfl, List.forall_mem_cons.2 ⟨hx, hbefore⟩, hy⟩
          · rintro ⟨before, y, after, hxs, hbefore, hy⟩
            cases before with
            | nil =>
                obtain ⟨rfl, rfl⟩ := List.cons.inj hxs
                cases hx.symm.trans hy
            | cons z before =>
                obtain ⟨rfl, rfl⟩ := List.cons.inj hxs
                exact ⟨before, y, after, rfl, (List.forall_mem_cons.1 hbefore).2, hy⟩

/-- The **first region that is refused**: it fails its checks with `e`, and those listed before it
are representable. -/
def Region.FirstRefused (fileCount : Nat) (regions : List Region) (region : Region)
    (e : MappingError) : Prop :=
  ∃ before after, regions = before ++ region :: after ∧
    (∀ r ∈ before, r.Representable fileCount) ∧ region.check fileCount = .error e

namespace Mapping

/-- The mappings that pass the checks are those with representable regions only. -/
theorem check_eq_ok_iff {mapping : Mapping} :
    mapping.check = .ok () ↔ ∀ r ∈ mapping.regions, r.Representable mapping.files.length := by
  rw [check, forM_eq_ok_iff]
  exact forall₂_congr fun r _ => Region.check_eq_ok_iff

/-- A mapping fails the checks as the first region does that is refused. -/
theorem check_eq_error_iff {mapping : Mapping} {e : MappingError} : mapping.check = .error e ↔
    ∃ region, Region.FirstRefused mapping.files.length mapping.regions region e := by
  rw [check, forM_eq_error_iff]
  simp only [Region.check_eq_ok_iff]
  constructor
  · rintro ⟨before, region, after, hregions, hbefore, hregion⟩
    exact ⟨region, before, after, hregions, hbefore, hregion⟩
  · rintro ⟨region, before, after, hregions, hbefore, hregion⟩
    exact ⟨before, region, after, hregions, hbefore, hregion⟩

/-- When a mapping has a canonical form, and what it is. -/
theorem canonical_eq_ok_iff {mapping canonical : Mapping} :
    mapping.canonical = .ok canonical ↔
      (∀ r ∈ mapping.regions, r.Representable mapping.files.length) ∧
        ∃ order, mapping.expressionOrder = .ok order ∧ mapping.arrange order = canonical := by
  rw [← check_eq_ok_iff]
  cases hcheck : mapping.check with
  | error e => simp [Mapping.canonical, hcheck, bind, Except.bind]
  | ok _ =>
      cases horder : mapping.expressionOrder with
      | error e => simp [Mapping.canonical, hcheck, horder, bind, Except.bind]
      | ok order =>
          simp [Mapping.canonical, hcheck, horder, bind, Except.bind, pure, Except.pure]

/-- The encoding is the written form of the canonical form. -/
theorem encode_eq (mapping : Mapping) : mapping.encode = mapping.canonical.map toBytes := by
  rw [encode, write]
  cases mapping.canonical with
  | error e => rfl
  | ok canonical => rfl

/-- When a mapping has an encoding, and what it is. -/
theorem encode_eq_ok_iff {mapping : Mapping} {bytes : Bytes} :
    mapping.encode = .ok bytes ↔ (∀ r ∈ mapping.regions, r.Representable mapping.files.length) ∧
      ∃ order, mapping.expressionOrder = .ok order ∧
        (mapping.arrange order).toBytes = bytes := by
  rw [encode_eq]
  constructor
  · intro hencode
    cases hcanonical : mapping.canonical with
    | error e => simp [hcanonical, Except.map] at hencode
    | ok canonical =>
        rw [hcanonical] at hencode
        obtain ⟨hvalid, order, horder, rfl⟩ := canonical_eq_ok_iff.1 hcanonical
        exact ⟨hvalid, order, horder, Except.ok.inj hencode⟩
  · rintro ⟨hvalid, order, horder, rfl⟩
    rw [canonical_eq_ok_iff.2 ⟨hvalid, order, horder, rfl⟩]
    rfl

/-- A mapping whose expressions can be numbered is refused for a region, or not at all. -/
theorem encode_eq_error_iff {mapping : Mapping} {order : List Nat}
    (horder : mapping.expressionOrder = .ok order) {e : MappingError} :
    mapping.encode = .error e ↔
      ∃ region, Region.FirstRefused mapping.files.length mapping.regions region e := by
  rw [encode_eq, map_eq_error_iff, ← check_eq_error_iff, canonical, horder]
  cases mapping.check with
  | error e' => simp [bind, Except.bind]
  | ok _ => simp [bind, Except.bind, pure, Except.pure]

end Mapping

end SourceCoverage
