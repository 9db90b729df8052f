import TensorGraph.Shape.Window
import Mathlib.SetTheory.Cardinal.Finite

/-! # Placements of a window

A window is placed at every multiple of its stride at which it lies within the padded image. The
size that is computed for the result counts exactly these placements, in both directions. It is
computed for the windows that fit, and then every number on the way to it is a size. -/

namespace TensorGraph.Window

/-- The window fits a padded image of the given `height` and `width`, and has `rows` and `columns`
of placements in it. -/
structure Covers (w : Window) (height width rows columns : Nat) : Prop where
  stride : 0 < w.stride
  kernel : 0 < w.kernel
  fitsHeight : w.kernel ≤ height + w.pads.top + w.pads.bottom
  fitsWidth : w.kernel ≤ width + w.pads.left + w.pads.right
  rows : rows = (height + w.pads.top + w.pads.bottom - w.kernel) / w.stride + 1
  columns : columns = (width + w.pads.left + w.pads.right - w.kernel) / w.stride + 1

variable {w : Window} {height width rows columns : Nat}

/-- **A result size is computed** by `outputSize?` exactly when the window fits and the padded image
has sizes, below `Size.bound`. -/
theorem outputSize?_eq_some : w.outputSize? height width = some (rows, columns) ↔
    w.Covers height width rows columns ∧
      height + w.pads.top + w.pads.bottom < Size.bound ∧
      width + w.pads.left + w.pads.right < Size.bound := by
  simp only [outputSize?, Option.bind_eq_bind, Option.bind_eq_some_iff, padded?_eq_some,
    Option.ite_none_right_eq_some, Option.some.injEq, Prod.mk.injEq, placements]
  constructor
  · rintro ⟨_, ⟨hh, rfl⟩, _, ⟨hw, rfl⟩, ⟨hs, hk, hkh, hkw⟩, rfl, rfl⟩
    exact ⟨⟨hs, hk, hkh, hkw, rfl, rfl⟩, hh, hw⟩
  · rintro ⟨h, hh, hw⟩
    exact ⟨_, ⟨hh, rfl⟩, _, ⟨hw, rfl⟩, ⟨h.stride, h.kernel, h.fitsHeight, h.fitsWidth⟩,
      h.rows.symm, h.columns.symm⟩

/-- A `place` is one of the placements along a direction exactly when the window that begins there
ends within the padded `extent`. -/
theorem lt_placements {extent place : Nat} (hs : 0 < w.stride) (hk : w.kernel ≤ extent) :
    place < w.placements extent ↔ place * w.stride + w.kernel ≤ extent := by
  rw [placements, Nat.lt_succ_iff, Nat.le_div_iff_mul_le hs]
  omega

/-! ### Counting the placements -/

/-- The window fits the padded image, which has sizes. -/
structure Admits (w : Window) (height width : Nat) : Prop where
  stride : 0 < w.stride
  kernel : 0 < w.kernel
  heightSize : height + w.pads.top + w.pads.bottom < Size.bound
  widthSize : width + w.pads.left + w.pads.right < Size.bound
  fitsHeight : w.kernel ≤ height + w.pads.top + w.pads.bottom
  fitsWidth : w.kernel ≤ width + w.pads.left + w.pads.right

/-- The window that is placed after `place` steps ends within the padded `extent`. -/
def Lies (w : Window) (extent place : Nat) : Prop := place * w.stride + w.kernel ≤ extent

/-- The numbers met when the placements are counted, as they are without a bound on them: `extent`
with one padding and with both, what the kernel leaves of it, how many steps this is, and the count
itself. -/
def stages (w : Window) (extent before after : Nat) : List Int :=
  let first : Int := extent + before
  let padded : Int := first + after
  let rest : Int := padded - w.kernel
  let steps : Int := rest / w.stride
  [first, padded, rest, steps, steps + 1]

/-- There are `count` placements in an extent between two paddings, and all `stages` of counting
them are sizes. -/
structure Counts (w : Window) (extent before after count : Nat) : Prop where
  lies_iff : ∀ place, w.Lies (extent + before + after) place ↔ place < count
  card : Nat.card {place // w.Lies (extent + before + after) place} = count
  pos : 1 ≤ count
  /-- No pixel of a placement is outside. -/
  inside : ∀ place < count, ∀ pixel < w.kernel,
    place * w.stride + pixel < extent + before + after
  /-- One more placement would end outside. -/
  outside : extent + before + after < count * w.stride + w.kernel
  /-- The count is the last number of the computation, and no number of it leaves the sizes. -/
  last : (w.stages extent before after).getLast? = some (count : Int)
  sizes : ∀ stage ∈ w.stages extent before after, 0 ≤ stage ∧ stage < Size.bound

variable {extent before after : Nat}

/-- A number below which exactly the placements lie (`Lies`) is their number. -/
theorem card_of_lies_iff {count : Nat} (h : ∀ place, w.Lies extent place ↔ place < count) :
    Nat.card {place // w.Lies extent place} = count := by
  rw [Nat.card_congr (Equiv.subtypeEquivRight h), Nat.card_congr Fin.equivSubtype.symm,
    Nat.card_fin]

theorem stages_eq (hk : w.kernel ≤ extent + before + after) :
    w.stages extent before after = [((extent + before : Nat) : Int),
      ((extent + before + after : Nat) : Int), ((extent + before + after - w.kernel : Nat) : Int),
      (((extent + before + after - w.kernel) / w.stride : Nat) : Int),
      (w.placements (extent + before + after) : Int)] := by
  simp only [stages, placements, Nat.cast_add, Nat.cast_sub hk, Int.natCast_div, Nat.cast_one]

/-- The kernel takes at least as much of the extent as the placement that is counted besides the
steps, so counting does not leave the sizes. -/
theorem placements_le (hk : 0 < w.kernel) (hfits : w.kernel ≤ extent) :
    w.placements extent ≤ extent := by
  have hsteps : (extent - w.kernel) / w.stride ≤ extent - w.kernel := Nat.div_le_self _ _
  rw [placements]
  omega

theorem counts_placements (hs : 0 < w.stride) (hk : 0 < w.kernel)
    (hbound : extent + before + after < Size.bound) (hfits : w.kernel ≤ extent + before + after) :
    w.Counts extent before after (w.placements (extent + before + after)) := by
  have hlies : ∀ place, w.Lies (extent + before + after) place ↔
      place < w.placements (extent + before + after) := fun place => (lt_placements hs hfits).symm
  have hle := placements_le hk hfits
  refine ⟨hlies, card_of_lies_iff hlies, Nat.succ_pos _, fun place hplace pixel hpixel => ?_, ?_,
    ?_, ?_⟩
  · have hend : place * w.stride + w.kernel ≤ extent + before + after := (hlies place).2 hplace
    omega
  · have hnext := mt (hlies (w.placements (extent + before + after))).1 (Nat.lt_irrefl _)
    exact Nat.lt_of_not_le hnext
  · rw [stages_eq hfits]
    rfl
  · intro stage hstage
    have hsteps : (extent + before + after - w.kernel) / w.stride ≤
        extent + before + after - w.kernel := Nat.div_le_self _ _
    rw [stages_eq hfits] at hstage
    generalize (extent + before + after - w.kernel) / w.stride = steps at hsteps hstage
    simp only [List.mem_cons, List.not_mem_nil, or_false] at hstage
    obtain rfl | rfl | rfl | rfl | rfl := hstage <;> omega

/-- **Placements are counted exactly.** A size is computed by `outputSize?` exactly when the window
fits and the padded image has sizes (`Admits`). Its height and its width are then the numbers of
placements (`Counts`): all of these lie inside the padded image, there is at least one, and one more
would end outside. -/
theorem outputSize?_exact (w : Window) (height width : Nat) :
    ((∃ rows columns, w.outputSize? height width = some (rows, columns)) ↔
      w.Admits height width) ∧
    ∀ rows columns, w.outputSize? height width = some (rows, columns) →
      w.Counts height w.pads.top w.pads.bottom rows ∧
      w.Counts width w.pads.left w.pads.right columns := by
  simp only [outputSize?_eq_some]
  refine ⟨⟨?_, fun h => ?_⟩, ?_⟩
  · rintro ⟨rows, columns, h, hheight, hwidth⟩
    exact ⟨h.stride, h.kernel, hheight, hwidth, h.fitsHeight, h.fitsWidth⟩
  · exact ⟨_, _, ⟨h.stride, h.kernel, h.fitsHeight, h.fitsWidth, rfl, rfl⟩, h.heightSize,
      h.widthSize⟩
  · rintro rows columns ⟨h, hheight, hwidth⟩
    obtain rfl := h.rows
    obtain rfl := h.columns
    exact ⟨counts_placements h.stride h.kernel hheight h.fitsHeight,
      counts_placements h.stride h.kernel hwidth h.fitsWidth⟩

/-- A window of three pixels moves in steps of two over five rows, the last of them padding, and
fills the whole width. -/
theorem outputSize?_exact_strided : ∃ rows columns,
    (Window.mk 3 2 ⟨0, 0, 1, 0⟩).outputSize? 4 3 = some (rows, columns) ∧ rows = 2 ∧
      columns = 1 := by
  obtain ⟨hiff, hcounts⟩ := outputSize?_exact ⟨3, 2, ⟨0, 0, 1, 0⟩⟩ 4 3
  obtain ⟨rows, columns, hsize⟩ := hiff.2
    ⟨by decide, by decide, by decide, by decide, by decide, by decide⟩
  obtain ⟨hrows, hcolumns⟩ := hcounts rows columns hsize
  have hrow : (rows : Int) = 2 := by simpa [stages] using hrows.last.symm
  have hcolumn : (columns : Int) = 1 := by simpa [stages] using hcolumns.last.symm
  exact ⟨rows, columns, hsize, Int.ofNat_inj.1 hrow, Int.ofNat_inj.1 hcolumn⟩

end TensorGraph.Window
