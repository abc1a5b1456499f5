import SourceCoverage.Constant

/-!
# Where the Scalars of a Constant Lie

The size of a constant and its image come from two recursions over the same tree: one adds up
offsets, the other writes bytes. Here the two are compared through a third account, the
*placements*: the scalars of a constant in field order, each with the offset at which it belongs.
What an image is to the placements is said without the layout, by `LaidOut`: each scalar holds its
own bytes at an aligned offset, each ends before the next begins, and every other byte is zero.

An image is made here for each structure on its own and filled up behind it. An assembler has one
growing buffer instead, which it sets to the length that the next field or the end of the structure
asks for, counted from where the structure starts. Setting a length may also cut a buffer off;
`write_eq` says that no byte is ever lost in this way, so that what is written is the image.

That the offsets within a field stay aligned when the field is moved to its place rests on the
alignments being powers of two: a smaller one divides a larger one, so a field's alignment divides
that of every structure around it.

## Main results

* `Constant.alignment_dvd_size`: a size is a multiple of the alignment.
* `Constant.image?_eq_none_iff`: only a constant that refers to a symbol has no image.
* `Constant.length_image?`: an image has the size of its constant.
* `Constant.write_eq`: what a growing buffer receives is the image.
* `Constant.laidOut_image`: the scalars lie in the image where they are placed.
-/

namespace SourceCoverage

/-! ### Rounding offsets up -/

section AlignUp

variable {offset a : Nat}

theorem le_alignUp (offset a : Nat) : offset ≤ alignUp offset a := Nat.le_add_right ..

/-- An offset that is rounded up is a multiple of the alignment. -/
theorem dvd_alignUp (ha : 0 < a) : a ∣ alignUp offset a := by
  have hmod : offset % a < a := Nat.mod_lt offset ha
  rw [alignUp, Nat.dvd_iff_mod_eq_zero, Nat.add_mod, Nat.mod_mod]
  rcases Nat.eq_zero_or_pos (offset % a) with hzero | hpos
  · rw [hzero, Nat.sub_zero, Nat.mod_self, Nat.zero_add, Nat.zero_mod]
  · rw [Nat.mod_eq_of_lt (Nat.sub_lt ha hpos), Nat.add_sub_cancel' (Nat.le_of_lt hmod),
      Nat.mod_self]

end AlignUp

namespace Constant

/-! ### Scalars and their places -/

mutual

/-- The scalars of a constant, in field order. -/
def scalars : Constant → List Constant
  | struct fields => scalarsOfAll fields
  | scalar => [scalar]

/-- The scalars of the given fields. -/
def scalarsOfAll : List Constant → List Constant
  | [] => []
  | field :: fields => field.scalars ++ scalarsOfAll fields

end

/-- The bytes of a scalar, least significant first. An address has none of its own. -/
def ownBytes : Constant → Bytes
  | u32 value => Bytes.ofUInt32 value
  | u64 value => Bytes.ofUInt64 value
  | bytes data => data
  | counters count => Bytes.zeros (8 * count.toNat)
  | struct _ | address _ => []

mutual

/-- The scalars of a constant that starts at `start`, each with its offset. -/
def placements (start : Nat) : Constant → List (Nat × Constant)
  | struct fields => placementsOfAll start 0 fields
  | scalar => [(start, scalar)]

/-- The scalars of the given fields of a structure that starts at `start`, where the fields before
them end at `offset` within it. -/
def placementsOfAll (start offset : Nat) : List Constant → List (Nat × Constant)
  | [] => []
  | field :: fields =>
    field.placements (start + alignUp offset field.alignment)
      ++ placementsOfAll start (alignUp offset field.alignment + field.size) fields

end

/-- What an image is to the scalars that are placed in it. -/
structure LaidOut (image : Bytes) (placed : List (Nat × Constant)) : Prop where
  /-- A scalar lies at a multiple of its alignment. -/
  aligned : ∀ place ∈ placed, place.2.alignment ∣ place.1
  /-- A scalar lies within the image. -/
  within : ∀ place ∈ placed, place.1 + place.2.ownBytes.length ≤ image.length
  /-- A scalar holds its own bytes. -/
  written : ∀ place ∈ placed,
    (image.drop place.1).take place.2.ownBytes.length = place.2.ownBytes
  /-- A scalar ends before those after it begin. -/
  ordered : placed.Pairwise fun place later => place.1 + place.2.ownBytes.length ≤ later.1
  /-- Every other byte is zero. -/
  filling : ∀ i < image.length,
    (∀ place ∈ placed, i < place.1 ∨ place.1 + place.2.ownBytes.length ≤ i) → image[i]? = some 0

mutual

/-- The placed scalars are the scalars. -/
theorem map_placements (start : Nat) :
    (c : Constant) → (c.placements start).map Prod.snd = c.scalars
  | struct fields => map_placementsOfAll start 0 fields
  | u32 _ | u64 _ | bytes _ | address _ | counters _ => rfl

theorem map_placementsOfAll (start offset : Nat) : (fields : List Constant) →
    (placementsOfAll start offset fields).map Prod.snd = scalarsOfAll fields
  | [] => rfl
  | field :: fields => by
    rw [placementsOfAll, List.map_append, map_placements, map_placementsOfAll start, scalarsOfAll]

end

/-! ### Alignments -/

mutual

/-- There are three alignments. -/
theorem alignment_cases :
    (c : Constant) → c.alignment = 1 ∨ c.alignment = 4 ∨ c.alignment = 8
  | struct fields => alignmentOfAll_cases fields
  | bytes _ => .inl rfl
  | u32 _ => .inr (.inl rfl)
  | u64 _ | address _ | counters _ => .inr (.inr rfl)

theorem alignmentOfAll_cases : (fields : List Constant) →
    alignmentOfAll fields = 1 ∨ alignmentOfAll fields = 4 ∨ alignmentOfAll fields = 8
  | [] => .inl rfl
  | field :: fields => by
    have hfield := alignment_cases field
    have hfields := alignmentOfAll_cases fields
    rw [alignmentOfAll]
    omega

end

theorem alignment_pos (c : Constant) : 0 < c.alignment := by
  have := c.alignment_cases
  omega

theorem alignmentOfAll_pos (fields : List Constant) : 0 < alignmentOfAll fields :=
  (struct fields).alignment_pos

/-- The alignment of a structure is a multiple of that of its first field and of that of the others,
since of two alignments the smaller one divides the larger one. -/
theorem dvd_alignmentOfAll_cons (field : Constant) (fields : List Constant) :
    field.alignment ∣ alignmentOfAll (field :: fields) ∧
      alignmentOfAll fields ∣ alignmentOfAll (field :: fields) := by
  rw [alignmentOfAll]
  rcases field.alignment_cases with hfield | hfield | hfield <;>
    rcases alignmentOfAll_cases fields with hfields | hfields | hfields <;>
      rw [hfield, hfields] <;> decide

/-- **A size is a multiple of the alignment.** -/
theorem alignment_dvd_size : (c : Constant) → c.alignment ∣ c.size
  | u32 _ | u64 _ | address _ => Nat.dvd_refl _
  | bytes _ => Nat.one_dvd _
  | counters _ => Nat.dvd_mul_right ..
  | struct fields => by
    rw [alignment, size]
    exact dvd_alignUp (alignmentOfAll_pos fields)

/-! ### The length of an image -/

/-- Filling up gives the length asked for, when there are no more bytes than that. -/
theorem length_fillTo {length : Nat} {data : Bytes} (h : data.length ≤ length) :
    (fillTo length data).length = length := by
  rw [fillTo, List.length_append, Bytes.length_zeros]
  omega

/-- A structure has an image if its fields have one after another. -/
theorem imageOfAll?_cons_eq_some_iff {before image : Bytes} {field : Constant}
    {fields : List Constant} : imageOfAll? before (field :: fields) = some image ↔
      ∃ data, field.image? = some data ∧
        imageOfAll? (fillTo (alignUp before.length field.alignment) before ++ data) fields
          = some image := by
  rw [imageOfAll?, Option.bind_eq_bind, Option.bind_eq_some_iff]

theorem image?_struct_eq_some_iff {image : Bytes} {fields : List Constant} :
    (struct fields).image? = some image ↔
      ∃ data, imageOfAll? [] fields = some data ∧ fillTo (struct fields).size data = image := by
  rw [image?, Option.map_eq_some_iff]

mutual

/-- **An image has the size of its constant.** -/
theorem length_image? {image : Bytes} :
    (c : Constant) → c.image? = some image → image.length = c.size
  | u32 value, h => Option.some.inj h ▸ Bytes.length_ofUInt32 value
  | u64 value, h => Option.some.inj h ▸ Bytes.length_ofUInt64 value
  | bytes _, h => Option.some.inj h ▸ rfl
  | counters _, h => Option.some.inj h ▸ Bytes.length_zeros _
  | struct fields, h => by
    obtain ⟨data, hdata, rfl⟩ := image?_struct_eq_some_iff.mp h
    refine length_fillTo ?_
    rw [length_imageOfAll? fields hdata, size]
    exact le_alignUp ..

/-- The fields are written up to where the last of them ends. -/
theorem length_imageOfAll? {before image : Bytes} : (fields : List Constant) →
    imageOfAll? before fields = some image → image.length = endOfAll before.length fields
  | [], h => Option.some.inj h ▸ rfl
  | field :: fields, h => by
    obtain ⟨data, hdata, hrest⟩ := imageOfAll?_cons_eq_some_iff.mp h
    rw [length_imageOfAll? fields hrest, List.length_append, length_fillTo (le_alignUp ..),
      length_image? field hdata, endOfAll]

end

/-! ### Constants without an image -/

mutual

/-- **Only a constant that refers to a symbol has no image.** -/
theorem image?_eq_none_iff : (c : Constant) → (c.image? = none ↔ c.references ≠ [])
  | u32 _ | u64 _ | bytes _ | counters _ => by simp [image?, references]
  | address _ => by simp [image?, references]
  | struct fields => by
    rw [image?, Option.map_eq_none_iff, references]
    exact imageOfAll?_eq_none_iff [] fields

theorem imageOfAll?_eq_none_iff (before : Bytes) : (fields : List Constant) →
    (imageOfAll? before fields = none ↔ referencesOfAll fields ≠ [])
  | [] => by simp [imageOfAll?, referencesOfAll]
  | field :: fields => by
    have hfield := image?_eq_none_iff field
    rw [imageOfAll?, referencesOfAll, Option.bind_eq_bind, ne_eq, List.append_eq_nil_iff]
    cases hdata : field.image? with
    | none =>
      have hrefers := hfield.mp hdata
      simp [hrefers]
    | some data =>
      have hnone : field.references = [] := by simpa [hdata] using hfield
      rw [Option.bind_some, imageOfAll?_eq_none_iff _ fields]
      simp [hnone]

end

/-! ### Writing into a growing buffer -/

/-- A buffer set to a length: cut off if it is longer, and filled up with zeros if shorter. -/
def resize (length : Nat) (buffer : Bytes) : Bytes :=
  buffer.take length ++ Bytes.zeros (length - buffer.length)

mutual

/-- The buffer after a constant was written to its end, unless there is an address to write. -/
def write (buffer : Bytes) : Constant → Option Bytes
  | u32 value => some (buffer ++ Bytes.ofUInt32 value)
  | u64 value => some (buffer ++ Bytes.ofUInt64 value)
  | bytes data => some (buffer ++ data)
  | counters count => some (resize (buffer.length + 8 * count.toNat) buffer)
  | address _ => none
  | struct fields => do
    let written ← writeAll buffer.length buffer fields
    return resize (buffer.length + (struct fields).size) written

/-- The buffer after the given fields of a structure that starts at `start` were written. -/
def writeAll (start : Nat) (buffer : Bytes) : List Constant → Option Bytes
  | [] => some buffer
  | field :: fields => do
    let offset := alignUp (buffer.length - start) field.alignment
    let written ← field.write (resize (start + offset) buffer)
    writeAll start written fields

end

/-- Setting a length that the buffer does not exceed cuts nothing off. -/
theorem resize_append {length : Nat} {data : Bytes} (buffer : Bytes) (h : data.length ≤ length) :
    resize (buffer.length + length) (buffer ++ data) = buffer ++ fillTo length data := by
  have hlength : (buffer ++ data).length ≤ buffer.length + length := by
    rw [List.length_append]
    omega
  rw [resize, List.take_of_length_le hlength, fillTo, List.length_append, List.append_assoc,
    Nat.add_sub_add_left]

mutual

/-- **What a growing buffer receives is the image**, wherever the constant starts in it. -/
theorem write_eq (buffer : Bytes) :
    (c : Constant) → c.write buffer = c.image?.map (buffer ++ ·)
  | u32 _ | u64 _ | bytes _ | address _ => rfl
  | counters count => by
    have hnone : ([] : Bytes).length ≤ 8 * count.toNat := Nat.zero_le _
    have hgrown := resize_append buffer hnone
    rw [List.append_nil] at hgrown
    rw [write, hgrown]
    rfl
  | struct fields => by
    have hfields := writeAll_eq buffer [] fields
    rw [List.append_nil] at hfields
    rw [write, hfields, image?]
    cases hdata : imageOfAll? [] fields with
    | none => rfl
    | some data =>
      have hsize : data.length ≤ (struct fields).size := by
        rw [length_imageOfAll? fields hdata, size]
        exact le_alignUp ..
      exact congrArg some (resize_append buffer hsize)

theorem writeAll_eq (buffer before : Bytes) : (fields : List Constant) →
    writeAll buffer.length (buffer ++ before) fields
      = (imageOfAll? before fields).map (buffer ++ ·)
  | [] => rfl
  | field :: fields => by
    have hplace : resize (buffer.length + alignUp before.length field.alignment) (buffer ++ before)
        = buffer ++ fillTo (alignUp before.length field.alignment) before :=
      resize_append buffer (le_alignUp ..)
    rw [writeAll, imageOfAll?, List.length_append, Nat.add_sub_cancel_left, hplace,
      write_eq _ field]
    cases field.image? with
    | none => rfl
    | some data =>
      simp only [Option.map_some, Option.bind_eq_bind, Option.bind_some, List.append_assoc]
      exact writeAll_eq buffer _ fields

end

/-! ### Images as gaps and scalars -/

/-- An image that starts at `base` is a row of placed scalars, with zeros before each and behind the
last. This is what `LaidOut` says, in a form that grows at both ends. -/
inductive Lays : Nat → Bytes → List (Nat × Constant) → Prop
  | nil (base gap : Nat) : Lays base (Bytes.zeros gap) []
  | cons {base gap : Nat} {scalar : Constant} {rest : Bytes} {placed : List (Nat × Constant)} :
      scalar.alignment ∣ base + gap →
      Lays (base + gap + scalar.ownBytes.length) rest placed →
      Lays base (Bytes.zeros gap ++ (scalar.ownBytes ++ rest)) ((base + gap, scalar) :: placed)

namespace Lays

variable {base : Nat} {image after : Bytes} {placed placedAfter : List (Nat × Constant)}

/-- A scalar alone. -/
theorem single {scalar : Constant} (h : scalar.alignment ∣ base) :
    Lays base scalar.ownBytes [(base, scalar)] := by
  have hrow : Lays base (Bytes.zeros 0 ++ (scalar.ownBytes ++ Bytes.zeros 0))
      ((base + 0, scalar) :: []) :=
    .cons h (.nil _ 0)
  simpa [Bytes.zeros] using hrow

/-- A longer gap before an image. -/
theorem zeros_append {gap : Nat} (h : Lays (base + gap) after placed) :
    Lays base (Bytes.zeros gap ++ after) placed := by
  cases h with
  | nil _ more =>
    rw [Bytes.zeros, Bytes.zeros, List.replicate_append_replicate]
    exact .nil base (gap + more)
  | @cons _ more scalar rest placed haligned hrest =>
    rw [Nat.add_assoc base gap more] at haligned hrest ⊢
    rw [← List.append_assoc, Bytes.zeros, Bytes.zeros, List.replicate_append_replicate]
    exact .cons haligned hrest

/-- One image behind another. -/
theorem append (h : Lays base image placed)
    (hafter : Lays (base + image.length) after placedAfter) :
    Lays base (image ++ after) (placed ++ placedAfter) := by
  induction h with
  | nil base gap =>
    rw [Bytes.length_zeros] at hafter
    exact hafter.zeros_append
  | @cons base gap scalar rest placed haligned _ ih =>
    have hbehind : base + (Bytes.zeros gap ++ (scalar.ownBytes ++ rest)).length
        = base + gap + scalar.ownBytes.length + rest.length := by
      simp only [List.length_append, Bytes.length_zeros]
      omega
    rw [hbehind] at hafter
    simpa only [List.append_assoc, List.cons_append] using Lays.cons haligned (ih hafter)

/-- Zeros behind an image. -/
theorem append_zeros (h : Lays base image placed) (gap : Nat) :
    Lays base (image ++ Bytes.zeros gap) placed := by
  simpa using h.append (.nil (base + image.length) gap)

theorem fillTo (h : Lays base image placed) (length : Nat) :
    Lays base (Constant.fillTo length image) placed :=
  h.append_zeros _

theorem aligned (h : Lays base image placed) :
    ∀ place ∈ placed, place.2.alignment ∣ place.1 := by
  induction h with
  | nil => simp
  | cons haligned _ ih => exact List.forall_mem_cons.mpr ⟨haligned, ih⟩

/-- The placed scalars lie between the two ends of the image. -/
theorem within (h : Lays base image placed) : ∀ place ∈ placed,
    base ≤ place.1 ∧ place.1 + place.2.ownBytes.length ≤ base + image.length := by
  induction h with
  | nil => simp
  | cons _ _ ih =>
    simp only [List.length_append, Bytes.length_zeros]
    refine List.forall_mem_cons.mpr ⟨⟨Nat.le_add_right .., ?_⟩, fun place hplace => ?_⟩
    · simp only
      omega
    · have := ih place hplace
      omega

theorem ordered (h : Lays base image placed) :
    placed.Pairwise fun place later => place.1 + place.2.ownBytes.length ≤ later.1 := by
  induction h with
  | nil => exact .nil
  | cons _ hrest ih =>
    exact List.pairwise_cons.mpr ⟨fun later hlater => (hrest.within later hlater).1, ih⟩

theorem written (h : Lays base image placed) : ∀ place ∈ placed,
    (image.drop (place.1 - base)).take place.2.ownBytes.length = place.2.ownBytes := by
  induction h with
  | nil => simp
  | @cons base gap scalar rest placed _ hrest ih =>
    refine List.forall_mem_cons.mpr ⟨?_, fun place hplace => ?_⟩
    · rw [Nat.add_sub_cancel_left, List.drop_left' (Bytes.length_zeros gap), List.take_left]
    · -- The rest starts behind the gap and the scalar, and a later scalar is counted from there.
      have hbehind : place.1 - base
          = gap + scalar.ownBytes.length + (place.1 - (base + gap + scalar.ownBytes.length)) := by
        have := (hrest.within place hplace).1
        omega
      have hfront : (Bytes.zeros gap ++ scalar.ownBytes).length
          = gap + scalar.ownBytes.length := by
        rw [List.length_append, Bytes.length_zeros]
      rw [hbehind, ← List.drop_drop, ← List.append_assoc, List.drop_left' hfront]
      exact ih place hplace

theorem filling (h : Lays base image placed) : ∀ i < image.length,
    (∀ place ∈ placed, base + i < place.1 ∨ place.1 + place.2.ownBytes.length ≤ base + i) →
      image[i]? = some 0 := by
  induction h with
  | nil base gap =>
    intro i hi _
    rw [Bytes.length_zeros] at hi
    exact List.getElem?_replicate_of_lt hi
  | @cons base gap scalar rest placed _ hrest ih =>
    intro i hi houtside
    obtain ⟨hscalar, hothers⟩ := List.forall_mem_cons.mp houtside
    rcases Nat.lt_or_ge i gap with hgap | hgap
    · rw [List.getElem?_append_left (by rwa [Bytes.length_zeros])]
      exact List.getElem?_replicate_of_lt hgap
    · -- Not in the gap and not in the scalar, so in the rest.
      have hrestStart : scalar.ownBytes.length ≤ i - gap := by
        rcases hscalar with hscalar | hscalar <;> simp only at hscalar <;> omega
      rw [List.getElem?_append_right (by rwa [Bytes.length_zeros]), Bytes.length_zeros,
        List.getElem?_append_right hrestStart]
      refine ih _ ?_ fun place hplace => ?_
      · simp only [List.length_append, Bytes.length_zeros] at hi
        omega
      · have := hothers place hplace
        omega

/-- An image that starts at the origin, as `LaidOut` speaks of it. -/
theorem laidOut (h : Lays 0 image placed) : LaidOut image placed where
  aligned := h.aligned
  within := by simpa using h.within
  written := h.written
  ordered := h.ordered
  filling := by simpa using h.filling

end Lays

/-! ### The image of a constant -/

mutual

/-- A constant that starts at a multiple of its alignment has its scalars where they are placed. -/
theorem lays_image {start : Nat} {image : Bytes} : (c : Constant) → c.image? = some image →
    c.alignment ∣ start → Lays start image (c.placements start)
  | u32 value, himage, hstart => Option.some.inj himage ▸ .single hstart
  | u64 value, himage, hstart => Option.some.inj himage ▸ .single hstart
  | bytes data, himage, hstart => Option.some.inj himage ▸ .single hstart
  | counters count, himage, hstart => Option.some.inj himage ▸ .single hstart
  | struct fields, himage, hstart => by
    obtain ⟨data, hdata, rfl⟩ := image?_struct_eq_some_iff.mp himage
    exact (lays_imageOfAll fields hdata hstart (.nil start 0)).fillTo _

/-- The fields of a structure that starts at a multiple of its alignment, behind what was written of
it before them. -/
theorem lays_imageOfAll {start : Nat} {before image : Bytes} {placed : List (Nat × Constant)} :
    (fields : List Constant) → imageOfAll? before fields = some image →
      alignmentOfAll fields ∣ start → Lays start before placed →
      Lays start image (placed ++ placementsOfAll start before.length fields)
  | [], himage, _, hbefore => by
    obtain rfl := Option.some.inj himage
    simpa [placementsOfAll] using hbefore
  | field :: fields, himage, hstart, hbefore => by
    obtain ⟨data, hdata, hrest⟩ := imageOfAll?_cons_eq_some_iff.mp himage
    obtain ⟨hfield, hfields⟩ := dvd_alignmentOfAll_cons field fields
    let offset := alignUp before.length field.alignment
    have hoffset : (fillTo offset before).length = offset := length_fillTo (le_alignUp ..)
    have haligned : field.alignment ∣ start + offset :=
      Nat.dvd_add (Nat.dvd_trans hfield hstart) (dvd_alignUp field.alignment_pos)
    have hplaced : Lays start (fillTo offset before ++ data)
        (placed ++ field.placements (start + offset)) := by
      refine (hbefore.fillTo offset).append ?_
      rw [hoffset]
      exact lays_image field hdata haligned
    have hend : (fillTo offset before ++ data).length = offset + field.size := by
      rw [List.length_append, hoffset, length_image? field hdata]
    have hall := lays_imageOfAll fields hrest (Nat.dvd_trans hfields hstart) hplaced
    rwa [hend, List.append_assoc] at hall

end

/-- **The scalars lie in the image where they are placed.** -/
theorem laidOut_image {c : Constant} {image : Bytes} (h : c.image? = some image) :
    LaidOut image (c.placements 0) :=
  (lays_image c h (Nat.dvd_zero _)).laidOut

/-- **The layout of a constant is consistent.** The size is a multiple of the alignment, and only a
constant that refers to a symbol has no image. An image has as many bytes as the size says, whether
it is made on its own or in a growing buffer; the scalars lie in it in field order, each with its
own bytes at a multiple of its alignment and none over another, and every other byte is zero. -/
theorem layout_consistent (c : Constant) : c.alignment ∣ c.size ∧
    (c.image? = none ↔ c.references ≠ []) ∧
    (∀ buffer, c.write buffer = c.image?.map (buffer ++ ·)) ∧
    ∀ image, c.image? = some image → image.length = c.size ∧
      (c.placements 0).map Prod.snd = c.scalars ∧ LaidOut image (c.placements 0) :=
  ⟨c.alignment_dvd_size, c.image?_eq_none_iff, fun buffer => c.write_eq buffer,
    fun _ himage => ⟨length_image? c himage, map_placements 0 c, laidOut_image himage⟩⟩

/-- A structure within a structure brings its alignment with it: the inner one starts at 8, and the
word in it at 16. -/
example : (struct [.u32 1, .struct [.bytes [7], .u64 2]]).placements 0
    = [(0, .u32 1), (8, .bytes [7]), (16, .u64 2)] := rfl

end Constant

end SourceCoverage
