import Tile.Tools.Support.ImageLimits

/-!
# Tools/Support/DimensionNote — what the coordinate note maps to

The note relates the shown image to one of its original size, which is recorded before the image is
turned upright.  For a JPEG whose sides are swapped then, unless it is a square, **the note is of
another image than the one that was scaled down** (`refersTo_iff`).
-/

namespace Tile

/-- The note gives the size of the upright image for the original one, no side of which is shorter
than what is shown, and its scale maps the width that is shown to the whole width of it. -/
structure RefersTo (oriented image : ProcessedImage) : Prop where
  note : image.dimensionNote = .ok (some image.coordinateNote)
  original : (image.originalWidth, image.originalHeight) = (oriented.width, oriented.height)
  width_le : image.width ≤ image.originalWidth
  height_le : image.height ≤ image.originalHeight
  scale : image.scale * image.width = oriented.width

section Note

variable {P : Pillow} {data : Bytes} {mimeType : ImageMimeType} {options : ImageProcessingOptions}
  {oriented image : ProcessedImage}

/-- What was shrunk from an image refers to it exactly when that has the right size for its original
one. -/
theorem Shrunk.refersTo_original_iff (hs : Shrunk oriented options image)
    (hresized : image.wasResized = true) :
    RefersTo oriented image ↔
      (oriented.originalWidth, oriented.originalHeight) = (oriented.width, oriented.height) := by
  constructor
  · intro h
    rw [← hs.originalWidth, ← hs.originalHeight]
    exact h.original
  · intro h
    obtain ⟨hwidth, hheight⟩ := Prod.mk.inj h
    rw [← hs.originalWidth] at hwidth
    rw [← hs.originalHeight] at hheight
    have hne : image.width ≠ 0 := ne_of_gt hs.width_pos
    have hnote : image.dimensionNote = .ok (some image.coordinateNote) := by
      rw [ProcessedImage.dimensionNote, if_neg (not_not.mpr hresized), if_neg hne]
    refine ⟨hnote, by rw [hwidth, hheight], hwidth ▸ hs.width_le, hheight ▸ hs.height_le, ?_⟩
    rw [ProcessedImage.scale, div_mul_cancel₀ _ (Int.cast_ne_zero.mpr hne), hwidth]

theorem swap_eq_self_iff {α : Type} {p : α × α} : p = p.swap ↔ p.1 = p.2 := by
  rw [Prod.ext_iff]
  exact ⟨And.left, fun h => ⟨h, h.symm⟩⟩

/-- **When the note refers to the upright image**: exactly when no JPEG was turned on its side that
is not a square. -/
theorem refersTo_iff (hP : P.Lawful) {fuel : Nat}
    (h : processImage P fuel data mimeType options = some (.ok image))
    (hresized : image.wasResized = true) :
    ∃ picture oriented, P.openBytes data = .ok picture ∧
      orientedImage P data mimeType = .ok oriented ∧
      (RefersTo oriented image ↔
        ¬ (mimeType = .jpeg ∧ P.swapsSides picture = true ∧
          (P.size picture).1 ≠ (P.size picture).2)) := by
  obtain ⟨oriented, horiented, hs⟩ := (inLoop_of_ok h).1.shrunk hP
  obtain ⟨picture, hopen, horiginal, hsize⟩ := orientedImage_spec hP horiented
  refine ⟨picture, oriented, hopen, horiented, ?_⟩
  rw [hs.refersTo_original_iff hresized, horiginal, hsize, Pillow.uprightSize]
  split
  next hswaps =>
    rw [swap_eq_self_iff]
    simp [hswaps]
  next hkeeps =>
    simp only [true_iff]
    exact fun h => hkeeps ⟨h.1, h.2.1⟩

end Note

/-- What a photograph that was taken upside down is resized to, down to its header alone. -/
def resizedPhotograph : ProcessedImage where
  data := ({ width := 2000, height := 1500 } : JpegHeader).bytes
  mimeType := .png
  originalWidth := 4000
  originalHeight := 3000
  width := 2000
  height := 1500
  wasResized := true

theorem process_photograph :
    processImage headersOnly 1 (photograph 3) .jpeg {} = some (.ok resizedPhotograph) := by
  decide +kernel

theorem refersTo_iff_photograph :
    ∃ oriented, orientedImage headersOnly (photograph 3) .jpeg = .ok oriented ∧
      RefersTo oriented resizedPhotograph := by
  obtain ⟨picture, oriented, hopen, horiented, hiff⟩ :=
    refersTo_iff headersOnly_lawful process_photograph rfl
  have hpicture : headersOnly.openBytes (photograph 3)
      = .ok ({ width := 4000, height := 3000, orientation := 3 } : JpegHeader) := by
    rfl
  obtain rfl := Except.ok.inj (hpicture.symm.trans hopen)
  exact ⟨oriented, horiented, hiff.mpr fun h => Bool.false_ne_true h.2.1⟩

/-- **A photograph that is turned on its side**, by its header, is shown as 1500 by 2000, and its
note maps the width that is shown to 4000, not to 3000. -/
theorem turned_photograph_note :
    ∃ image oriented, processImage headersOnly 1 (photograph 6) .jpeg {} = some (.ok image) ∧
      image.wasResized = true ∧
      image.dimensionNote = .ok (some ("[Image: original 4000x3000, displayed at 1500x2000. " ++
        "Multiply coordinates by 2.67 to map to original image.]")) ∧
      orientedImage headersOnly (photograph 6) .jpeg = .ok oriented ∧
      (oriented.width, oriented.height) = (3000, 4000) ∧ ¬ RefersTo oriented image := by
  refine ⟨{ resizedPhotograph with
      data := ({ width := 1500, height := 2000 } : JpegHeader).bytes, width := 1500,
      height := 2000 },
    { resizedPhotograph with
      data := ({ width := 3000, height := 4000 } : JpegHeader).bytes, mimeType := .jpeg,
      width := 3000, height := 4000, wasResized := false },
    by decide +kernel, rfl, by decide +kernel, by decide +kernel, rfl, fun h => ?_⟩
  cases h.original

end Tile
