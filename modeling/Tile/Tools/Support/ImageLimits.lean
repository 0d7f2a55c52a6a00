import Mathlib.Algebra.Order.Field.Rat
import Mathlib.Data.Int.Order.Basic
import Mathlib.Tactic.Linarith
import Tile.Library.Effect
import Tile.Tools.Support.ImageHeaders

/-!
# Tools/Support/ImageLimits — the loop ends, within the limits

Fitting into the box treats one side after the other, by the same rule (`fitSide`): the side that is
too long is cut to its limit, and the other one follows in proportion.  From there on **the sum of
the sides falls** with each turn (`nextDimensions_lt`), whatever the encoder makes of them.
-/

namespace Tile

/-! ## Fitting -/

section Fit

variable {a b a' b' q n limit : Int}

theorem exists_of_bind {ε α β : Type} {m : Except ε α} {f : α → Except ε β} {b : β}
    (h : m >>= f = .ok b) : ∃ a, m = .ok a ∧ f a = .ok b := by
  rcases m with e | a
  · cases h
  · exact ⟨a, rfl, h⟩

theorem roundQuotient_eq_ok (h : roundQuotient a b = .ok q) :
    b ≠ 0 ∧ q = roundHalfEven (a / b : ℚ) := by
  rw [roundQuotient] at h
  split at h
  next => cases h
  next hb => exact ⟨hb, (Except.ok.inj h).symm⟩

theorem roundQuotient_le (h : roundQuotient a b = .ok q)
    (hle : 0 ≤ b ∧ a ≤ n * b ∨ b ≤ 0 ∧ n * b ≤ a) : q ≤ n := by
  obtain ⟨hb, rfl⟩ := roundQuotient_eq_ok h
  refine roundHalfEven_le ?_
  rcases hle with ⟨hpos, hle⟩ | ⟨hneg, hle⟩
  · rw [div_le_iff₀ (by exact_mod_cast hpos.lt_of_ne hb.symm)]
    exact_mod_cast hle
  · rw [div_le_iff_of_neg (by exact_mod_cast hneg.lt_of_ne hb)]
    exact_mod_cast hle

theorem le_roundQuotient (h : roundQuotient a b = .ok q)
    (hle : 0 ≤ b ∧ n * b ≤ a ∨ b ≤ 0 ∧ a ≤ n * b) : n ≤ q := by
  obtain ⟨hb, rfl⟩ := roundQuotient_eq_ok h
  refine le_roundHalfEven ?_
  rcases hle with ⟨hpos, hle⟩ | ⟨hneg, hle⟩
  · rw [le_div_iff₀ (by exact_mod_cast hpos.lt_of_ne hb.symm)]
    exact_mod_cast hle
  · rw [le_div_iff_of_neg (by exact_mod_cast hneg.lt_of_ne hb)]
    exact_mod_cast hle

/-- Cut the side `a` to its limit, and the other side in proportion. -/
def fitSide (limit a b : Int) : Except ImageFailure (Int × Int) :=
  if a > limit then (roundQuotient (b * limit) a).map fun b => (limit, b) else .ok (a, b)

/-- One side after the other. -/
theorem fitDimensions_eq (width height : Int) (options : ImageProcessingOptions) :
    fitDimensions width height options =
      (fitSide options.maxWidth width height >>= fun sides =>
        fitSide options.maxHeight sides.2 sides.1 >>= fun sides =>
          .ok (max 1 sides.2, max 1 sides.1)) := by
  have hmap : ∀ {α β γ : Type} (m : Except ImageFailure α) (f : α → β)
      (g : β → Except ImageFailure γ), m.map f >>= g = m >>= fun a => g (f a) := by
    rintro α β γ (_ | _) f g <;> rfl
  rw [fitDimensions, fitSide]
  dsimp only
  split_ifs
  · rw [hmap]
    refine congrArg _ (funext fun fittedHeight => ?_)
    rw [fitSide]
    split_ifs
    · rw [hmap]
      rfl
    · rfl
  · change _ = fitSide options.maxHeight height width >>= _
    rw [fitSide, if_pos ‹_›, hmap]
    rfl
  · change _ = fitSide options.maxHeight height width >>= _
    rw [fitSide, if_neg ‹_›]
    rfl

/-- The two sides are of one sign. -/
def SameSign (a b : Int) : Prop := 0 ≤ a ∧ 0 ≤ b ∨ a ≤ 0 ∧ b ≤ 0

theorem SameSign.symm (h : SameSign a b) : SameSign b a := h.imp And.symm And.symm

/-- **Fitting a side** lengthens neither, up to the sign that a negative limit gives both. -/
theorem fitSide_spec (hsign : SameSign a b) (h : fitSide limit a b = .ok (a', b')) :
    SameSign a' b' ∧ a' ≤ a ∧ a' ≤ limit ∧ b' ≤ max 0 b := by
  rw [fitSide] at h
  split at h
  next hlimit =>
    obtain ⟨q, hq, hsides⟩ := exists_of_bind (f := fun q => .ok (limit, q)) h
    obtain ⟨rfl, rfl⟩ := Prod.mk.inj (Except.ok.inj hsides)
    have hnegative : limit ≤ 0 → SameSign limit q ∧ q ≤ 0 := fun hlimit' => by
      have hq' : q ≤ 0 := by
        refine roundQuotient_le hq (hsign.imp ?_ ?_) <;> rintro ⟨ha, hb⟩ <;>
          refine ⟨ha, ?_⟩ <;> rw [Int.zero_mul]
        · exact Int.mul_nonpos_of_nonneg_of_nonpos hb hlimit'
        · exact Int.mul_nonneg_of_nonpos_of_nonpos hb hlimit'
      exact ⟨.inr ⟨hlimit', hq'⟩, hq'⟩
    rcases le_total limit 0 with hlimit' | hlimit'
    · obtain ⟨hsign', hq'⟩ := hnegative hlimit'
      exact ⟨hsign', hlimit.le, le_rfl, hq'.trans (le_max_left ..)⟩
    · obtain ⟨ha, hb⟩ : 0 ≤ a ∧ 0 ≤ b := by
        rcases hsign with h | ⟨ha, -⟩
        · exact h
        · omega
      have hnonneg : 0 ≤ q := le_roundQuotient hq
        (.inl ⟨ha, by rw [Int.zero_mul]; exact Int.mul_nonneg hb hlimit'⟩)
      have hle : q ≤ b := roundQuotient_le hq
        (.inl ⟨ha, Int.mul_le_mul_of_nonneg_left hlimit.le hb⟩)
      exact ⟨.inl ⟨hlimit', hnonneg⟩, hlimit.le, le_rfl, hle.trans (le_max_right ..)⟩
  next hlimit =>
    obtain ⟨rfl, rfl⟩ := Prod.mk.inj (Except.ok.inj h)
    exact ⟨hsign, le_rfl, by omega, le_max_right ..⟩

variable {width height width' height' : Int} {options : ImageProcessingOptions}

/-- **Fitting into the box** lengthens no side, for any limits, and keeps to limits that are
positive. -/
theorem fitDimensions_spec (hwidth : 1 ≤ width) (hheight : 1 ≤ height)
    (h : fitDimensions width height options = .ok (width', height')) :
    (1 ≤ width' ∧ width' ≤ width ∧ width' ≤ max 1 options.maxWidth) ∧
      (1 ≤ height' ∧ height' ≤ height ∧ height' ≤ max 1 options.maxHeight) := by
  rw [fitDimensions_eq] at h
  obtain ⟨⟨w₁, h₁⟩, hfirst, h⟩ := exists_of_bind h
  obtain ⟨⟨h₂, w₂⟩, hsecond, h⟩ := exists_of_bind h
  obtain ⟨rfl, rfl⟩ := Prod.mk.inj (Except.ok.inj h)
  obtain ⟨hsign, hw₁, hw₁', hh₁⟩ := fitSide_spec (.inl ⟨by omega, by omega⟩) hfirst
  obtain ⟨-, hh₂, hh₂', hw₂⟩ := fitSide_spec hsign.symm hsecond
  omega

/-- **The sum of the sides falls**, unless both are minimal. -/
theorem nextDimensions_lt (hwidth : 1 ≤ width) (hheight : 1 ≤ height)
    (hmin : ¬ (width = 1 ∧ height = 1)) :
    (1 ≤ (nextDimensions width height).1 ∧ (nextDimensions width height).1 ≤ width) ∧
      (1 ≤ (nextDimensions width height).2 ∧ (nextDimensions width height).2 ≤ height) ∧
      (nextDimensions width height).1 + (nextDimensions width height).2 < width + height := by
  have hdiv : ∀ n : Int, 1 ≤ n → (n * 3).tdiv 4 = n * 3 / 4 := fun n hn =>
    Int.tdiv_eq_ediv_of_nonneg (by omega)
  rw [nextDimensions, hdiv width hwidth, hdiv height hheight]
  split_ifs <;> dsimp only <;> omega

end Fit

/-! ## The stages -/

section Stages

variable {P : Pillow} {data : Bytes} {mimeType : ImageMimeType} {options : ImageProcessingOptions}
  {oriented image image' : ProcessedImage}

/-- The size of a picture once it is upright; only a JPEG is turned. -/
def Pillow.uprightSize (P : Pillow) (mimeType : ImageMimeType) (picture : P.Picture) : Int × Int :=
  if mimeType = .jpeg ∧ P.swapsSides picture then (P.size picture).swap else P.size picture

/-- What is not turned keeps its sides. -/
theorem swapsSides_of_not_hasExifOrientation {picture : P.Picture}
    (h : hasExifOrientation P picture = .ok false) : P.swapsSides picture = false := by
  obtain ⟨orientation, htag, hother⟩ := exists_of_bind h
  rw [Pillow.swapsSides, mapError_eq_ok htag]
  rcases orientation with - | n | -
  · rfl
  · have hone : n = 1 := by simpa using Except.ok.inj hother
    rw [hone]
    rfl
  · rfl

/-- Turning an image gives it the upright size, and leaves the original one. -/
theorem applyExifOrientation_spec (hP : P.Lawful) {picture : P.Picture}
    (hopen : openImage P image.data = .ok picture)
    (hsize : (image.width, image.height) = P.size picture)
    (h : applyExifOrientation P image = .ok oriented) :
    oriented.originalWidth = image.originalWidth ∧
      oriented.originalHeight = image.originalHeight ∧
      (oriented.width, oriented.height) = P.uprightSize image.mimeType picture := by
  rw [applyExifOrientation] at h
  rw [Pillow.uprightSize]
  by_cases hjpeg : image.mimeType = .jpeg
  · rw [if_neg (not_not.mpr hjpeg)] at h
    obtain ⟨current, hcurrent, h⟩ := exists_of_bind h
    obtain rfl := Except.ok.inj (hopen.symm.trans hcurrent)
    obtain ⟨hasOrientation, htag, h⟩ := exists_of_bind h
    rcases hasOrientation with - | -
    · obtain rfl := Except.ok.inj h
      rw [swapsSides_of_not_hasExifOrientation htag, if_neg fun h => Bool.false_ne_true h.2]
      exact ⟨rfl, rfl, hsize⟩
    · obtain ⟨upright, hupright, h⟩ := exists_of_bind h
      obtain ⟨candidate, -, h⟩ := exists_of_bind h
      obtain rfl := Except.ok.inj h
      refine ⟨rfl, rfl, (hP.size_exifTranspose (mapError_eq_ok hupright)).trans ?_⟩
      simp only [hjpeg, true_and]
  · rw [if_pos hjpeg] at h
    obtain rfl := Except.ok.inj h
    rw [if_neg fun h => hjpeg h.1]
    exact ⟨rfl, rfl, hsize⟩

/-- **The upright image** has the upright size, and keeps the size in the file for its original
one. -/
theorem orientedImage_spec (hP : P.Lawful) (h : orientedImage P data mimeType = .ok oriented) :
    ∃ picture, P.openBytes data = .ok picture ∧
      (oriented.originalWidth, oriented.originalHeight) = P.size picture ∧
      (oriented.width, oriented.height) = P.uprightSize mimeType picture := by
  obtain ⟨created, hcreated, h⟩ := exists_of_bind h
  obtain ⟨picture, hopen, hcreated⟩ := exists_of_bind hcreated
  obtain rfl := (Except.ok.inj hcreated).symm
  obtain ⟨hwidth, hheight, hsize⟩ := applyExifOrientation_spec hP hopen rfl h
  exact ⟨picture, mapError_eq_ok hopen, by rw [hwidth, hheight], hsize⟩

theorem uprightSize_pos (hP : P.Lawful) {picture : P.Picture}
    (hopen : P.openBytes data = .ok picture) :
    1 ≤ (P.uprightSize mimeType picture).1 ∧ 1 ≤ (P.uprightSize mimeType picture).2 := by
  rw [Pillow.uprightSize]
  split
  · exact (hP.size_pos hopen).symm
  · exact hP.size_pos hopen

/-- **What is kept** while an upright image is fitted and shrunk. -/
structure Shrunk (oriented : ProcessedImage) (options : ImageProcessingOptions)
    (image : ProcessedImage) : Prop where
  originalWidth : image.originalWidth = oriented.originalWidth
  originalHeight : image.originalHeight = oriented.originalHeight
  width_pos : 1 ≤ image.width
  width_le : image.width ≤ oriented.width
  width_limit : image.width ≤ max 1 options.maxWidth
  height_pos : 1 ≤ image.height
  height_le : image.height ≤ oriented.height
  height_limit : image.height ≤ max 1 options.maxHeight

/-- Resizing sets the size, and leaves the original one. -/
theorem resizeImage_spec {width height : Int}
    (h : resizeImage P image width height options = .ok image') :
    image'.originalWidth = image.originalWidth ∧ image'.originalHeight = image.originalHeight ∧
      image'.width = width ∧ image'.height = height := by
  obtain ⟨current, -, h⟩ := exists_of_bind h
  obtain ⟨resized, -, h⟩ := exists_of_bind h
  obtain ⟨encoded, -, h⟩ := exists_of_bind h
  obtain rfl := Except.ok.inj h
  exact ⟨rfl, rfl, rfl, rfl⟩

theorem resizeToFitDimensions_shrunk (hwidth : 1 ≤ oriented.width) (hheight : 1 ≤ oriented.height)
    (h : resizeToFitDimensions P oriented options = .ok image) :
    Shrunk oriented options image := by
  obtain ⟨⟨width, height⟩, hfit, h⟩ := exists_of_bind h
  obtain ⟨⟨hw, hwle, hwlimit⟩, hh, hhle, hhlimit⟩ := fitDimensions_spec hwidth hheight hfit
  dsimp only at h
  split at h
  next hsame =>
    obtain rfl := Except.ok.inj h
    exact ⟨rfl, rfl, hwidth, le_rfl, hsame.1 ▸ hwlimit, hheight, le_rfl, hsame.2 ▸ hhlimit⟩
  next =>
    obtain ⟨how, hoh, rfl, rfl⟩ := resizeImage_spec h
    exact ⟨how, hoh, hw, hwle, hwlimit, hh, hhle, hhlimit⟩

/-- **What a turn of the loop does.** -/
theorem shrinkingTurn_cases (options : ImageProcessingOptions) (image : ProcessedImage) :
    (exceedsBase64Size image options = false ∧
      shrinkingTurn P options image = .leave (.ok image)) ∨
    (exceedsBase64Size image options = true ∧ isMinimumSize image = true ∧
      shrinkingTurn P options image = .leave (.error (.processing SIZE_LIMIT_MESSAGE))) ∨
    (isMinimumSize image = false ∧
      ((∃ image', shrinkByFactor P image options = .ok image' ∧
          shrinkingTurn P options image = .again image') ∨
        ∃ failure, shrinkByFactor P image options = .error failure ∧
          shrinkingTurn P options image = .leave (.error failure))) := by
  rw [shrinkingTurn]
  rcases exceedsBase64Size image options with - | -
  · exact .inl ⟨rfl, rfl⟩
  · rcases isMinimumSize image with - | -
    · refine .inr (.inr ⟨rfl, ?_⟩)
      rcases shrinkByFactor P image options with failure | image'
      · exact .inr ⟨failure, rfl, rfl⟩
      · exact .inl ⟨image', rfl, rfl⟩
    · exact .inr (.inl ⟨rfl, rfl, rfl⟩)

/-- **How a turn leaves the loop.** -/
theorem shrinkingTurn_leave {result : Except ImageFailure ProcessedImage}
    (h : shrinkingTurn P options image = .leave result) :
    (exceedsBase64Size image options = false ∧ result = .ok image) ∨
    (exceedsBase64Size image options = true ∧ isMinimumSize image = true ∧
      result = .error (.processing SIZE_LIMIT_MESSAGE)) ∨
    (isMinimumSize image = false ∧
      ∃ failure, shrinkByFactor P image options = .error failure ∧ result = .error failure) := by
  rcases shrinkingTurn_cases (P := P) options image with
    ⟨hfits, hturn⟩ | ⟨hexceeds, hmin, hturn⟩ |
    ⟨hmin, ⟨smaller, -, hturn⟩ | ⟨failure, hshrink, hturn⟩⟩
  · exact .inl ⟨hfits, Turn.leave.inj (h.symm.trans hturn)⟩
  · exact .inr (.inl ⟨hexceeds, hmin, Turn.leave.inj (h.symm.trans hturn)⟩)
  · cases h.symm.trans hturn
  · exact .inr (.inr ⟨hmin, failure, hshrink, Turn.leave.inj (h.symm.trans hturn)⟩)

theorem not_minimal (h : isMinimumSize image = false) : ¬ (image.width = 1 ∧ image.height = 1) :=
  of_decide_eq_false h

/-- **The dimensions change**, so the branch for unchanged ones is not taken. -/
theorem shrinkByFactor_eq (hs : Shrunk oriented options image)
    (hmin : isMinimumSize image = false) :
    shrinkByFactor P image options =
      resizeImage P image (nextDimensions image.width image.height).1
        (nextDimensions image.width image.height).2 options := by
  have hlt := (nextDimensions_lt hs.width_pos hs.height_pos (not_minimal hmin)).2.2
  have hchange : ¬ ((nextDimensions image.width image.height).1 = image.width ∧
      (nextDimensions image.width image.height).2 = image.height) := by omega
  exact if_neg hchange

/-- **A turn of the loop** keeps what is kept, and the sum of the sides falls. -/
theorem shrinkingTurn_shrunk (hs : Shrunk oriented options image)
    (h : shrinkingTurn P options image = .again image') :
    Shrunk oriented options image' ∧
      (image'.width + image'.height).toNat < (image.width + image.height).toNat := by
  rcases shrinkingTurn_cases (P := P) options image with
    ⟨-, hleave⟩ | ⟨-, -, hleave⟩ | ⟨hmin, ⟨smaller, hshrink, hagain⟩ | ⟨failure, -, hleave⟩⟩
  · cases hleave.symm.trans h
  · cases hleave.symm.trans h
  · obtain rfl := Turn.again.inj (hagain.symm.trans h)
    rw [shrinkByFactor_eq hs hmin] at hshrink
    obtain ⟨how, hoh, hwidth, hheight⟩ := resizeImage_spec hshrink
    obtain ⟨⟨hw, hwle⟩, ⟨hh, hhle⟩, hlt⟩ :=
      nextDimensions_lt hs.width_pos hs.height_pos (not_minimal hmin)
    rw [← hwidth] at hw hwle hlt
    rw [← hheight] at hh hhle hlt
    refine ⟨⟨how.trans hs.originalWidth, hoh.trans hs.originalHeight, hw, hwle.trans hs.width_le,
      hwle.trans hs.width_limit, hh, hhle.trans hs.height_le, hhle.trans hs.height_limit⟩, ?_⟩
    omega
  · cases hleave.symm.trans h

/-! ## Errors -/

/-- Whatever it raises, it is not the error of the size limit. -/
def RaisesNoLimit {α : Type} (m : Except ImageFailure α) : Prop :=
  ∀ message, m ≠ .error (.processing message)

namespace RaisesNoLimit

variable {α β : Type}

theorem ok (a : α) : RaisesNoLimit (.ok a) := fun _ h => by cases h

theorem pillow (m : Except PillowError α) : RaisesNoLimit (m.mapError .pillow) := fun _ h => by
  rcases m with e | a <;> cases h

theorem bind {m : Except ImageFailure α} {f : α → Except ImageFailure β} (hm : RaisesNoLimit m)
    (hf : ∀ a, RaisesNoLimit (f a)) : RaisesNoLimit (m >>= f) := by
  rcases m with failure | a
  · exact fun message h => hm message (congrArg _ (Except.error.inj h))
  · exact hf a

theorem mapM {f : α → Except ImageFailure β} (hf : ∀ a, RaisesNoLimit (f a)) (as : List α) :
    RaisesNoLimit (as.mapM f) := by
  induction as with
  | nil => exact ok []
  | cons a as ih =>
    rw [List.mapM_cons]
    exact (hf a).bind fun b => ih.bind fun bs => ok (b :: bs)

end RaisesNoLimit

theorem encodeImage_raises (picture : P.Picture) (mimeType : ImageMimeType) (quality : Option Int) :
    RaisesNoLimit (encodeImage P picture mimeType quality) := by
  refine RaisesNoLimit.bind ?_ fun prepared => (RaisesNoLimit.pillow _).bind fun data => .ok _
  rw [prepareForEncoding]
  split
  · exact .pillow _
  · exact .ok _

theorem bestEncodedCandidate_raises (picture : P.Picture) (options : ImageProcessingOptions) :
    RaisesNoLimit (bestEncodedCandidate P picture options) := by
  refine RaisesNoLimit.bind ?_ fun _ => .ok _
  refine (encodeImage_raises picture .png none).bind fun png => ?_
  exact (RaisesNoLimit.mapM (fun quality => encodeImage_raises picture .jpeg (some quality))
    _).bind fun _ => .ok _

theorem resizeImage_raises (image : ProcessedImage) (width height : Int)
    (options : ImageProcessingOptions) :
    RaisesNoLimit (resizeImage P image width height options) :=
  (RaisesNoLimit.pillow _).bind fun _ => (RaisesNoLimit.pillow _).bind fun resized =>
    (bestEncodedCandidate_raises resized options).bind fun _ => .ok _

theorem fitDimensions_raises (width height : Int) (options : ImageProcessingOptions) :
    RaisesNoLimit (fitDimensions width height options) := by
  have hround : ∀ a b, RaisesNoLimit (roundQuotient a b) := fun a b => by
    rw [roundQuotient]
    split
    · exact fun _ h => by cases h
    · exact .ok _
  have hside : ∀ limit a b, RaisesNoLimit (fitSide limit a b) := fun limit a b => by
    rw [fitSide]
    split
    · exact (hround _ _).bind fun q => .ok (limit, q)
    · exact .ok _
  rw [fitDimensions_eq]
  exact (hside _ _ _).bind fun sides => (hside _ _ _).bind fun _ => .ok _

theorem applyExifOrientation_raises (image : ProcessedImage) :
    RaisesNoLimit (applyExifOrientation P image) := by
  rw [applyExifOrientation]
  split
  · exact .ok _
  · refine (RaisesNoLimit.pillow _).bind fun current =>
      ((RaisesNoLimit.pillow _).bind fun _ => .ok _).bind fun _ => ?_
    split
    · exact (RaisesNoLimit.pillow _).bind fun upright =>
        (encodeImage_raises upright _ _).bind fun _ => .ok _
    · exact .ok _

/-- **Nothing before the loop** raises the error of the size limit. -/
theorem fittedImage_raises (data : Bytes) (mimeType : ImageMimeType)
    (options : ImageProcessingOptions) : RaisesNoLimit (fittedImage P data mimeType options) := by
  have horiented : RaisesNoLimit (orientedImage P data mimeType) :=
    ((RaisesNoLimit.pillow _).bind fun _ => .ok _).bind applyExifOrientation_raises
  refine horiented.bind fun image => (fitDimensions_raises _ _ _).bind fun dimensions => ?_
  dsimp only
  split
  · exact .ok _
  · exact resizeImage_raises image _ _ _

/-- The handler words the errors of Pillow in another way. -/
theorem handled_eq_sizeLimit {failure : ImageFailure}
    (h : failure.handled = .processing SIZE_LIMIT_MESSAGE) :
    failure = .processing SIZE_LIMIT_MESSAGE := by
  have hne : ∀ message : String,
      s!"could not be processed ({message})" ≠ SIZE_LIMIT_MESSAGE := fun message h => by
    have hself : ∀ s : String, toString s = s := fun _ => rfl
    have htake := congrArg (fun s => s.toList.take 14) h
    simp [SIZE_LIMIT_MESSAGE, hself] at htake
  rcases failure with message | (message | message | error) | -
  · exact h
  · exact absurd (ImageFailure.processing.inj h) (hne message)
  · exact absurd (ImageFailure.processing.inj h) (hne message)
  · cases h
  · cases h

/-! ## The whole run -/

/-- The images with which a turn of the loop begins. -/
def InLoop (P : Pillow) (data : Bytes) (mimeType : ImageMimeType) (options : ImageProcessingOptions)
    (image : ProcessedImage) : Prop :=
  ∃ fitted, fittedImage P data mimeType options = .ok fitted ∧
    AtHead (shrinkingTurn P options) fitted image

theorem fittedImage_shrunk (hP : P.Lawful) (h : fittedImage P data mimeType options = .ok image) :
    ∃ oriented, orientedImage P data mimeType = .ok oriented ∧ Shrunk oriented options image := by
  obtain ⟨oriented, horiented, h⟩ := exists_of_bind h
  obtain ⟨picture, hopen, -, hsize⟩ := orientedImage_spec hP horiented
  obtain ⟨hwidth, hheight⟩ : 1 ≤ (P.uprightSize mimeType picture).1 ∧
      1 ≤ (P.uprightSize mimeType picture).2 := uprightSize_pos hP hopen
  rw [← hsize] at hwidth hheight
  exact ⟨oriented, horiented, resizeToFitDimensions_shrunk hwidth hheight h⟩

theorem InLoop.shrunk (hP : P.Lawful) (h : InLoop P data mimeType options image) :
    ∃ oriented, orientedImage P data mimeType = .ok oriented ∧ Shrunk oriented options image := by
  obtain ⟨fitted, hfitted, hhead⟩ := h
  obtain ⟨oriented, horiented, hs⟩ := fittedImage_shrunk hP hfitted
  exact ⟨oriented, horiented, hhead.invariant hs fun hs h => (shrinkingTurn_shrunk hs h).1⟩

/-- **How the pipeline ends**: before the loop, or with the last turn of it. -/
theorem processImage_cases {fuel : Nat} {outcome : Except ImageFailure ProcessedImage}
    (h : processImage P fuel data mimeType options = some outcome) :
    (∃ failure, fittedImage P data mimeType options = .error failure ∧
      outcome = .error failure.handled) ∨
    ∃ image, InLoop P data mimeType options image ∧
      ∃ result, shrinkingTurn P options image = .leave result ∧
        outcome = result.mapError ImageFailure.handled := by
  rw [processImage] at h
  rcases hfitted : fittedImage P data mimeType options with failure | fitted
  · rw [hfitted] at h
    exact .inl ⟨failure, rfl, (Option.some.inj h).symm⟩
  · rw [hfitted] at h
    obtain ⟨result, hloop, rfl⟩ := Option.map_eq_some_iff.mp h
    obtain ⟨image, hhead, hleave⟩ := exists_of_loop hloop
    exact .inr ⟨image, ⟨fitted, hfitted, hhead⟩, result, hleave, rfl⟩

/-- What is returned is the image with which the last turn began. -/
theorem inLoop_of_ok {fuel : Nat}
    (h : processImage P fuel data mimeType options = some (.ok image)) :
    InLoop P data mimeType options image ∧ exceedsBase64Size image options = false := by
  rcases processImage_cases h with ⟨failure, -, hfailure⟩ | ⟨last, hlast, result, hleave, hresult⟩
  · cases hfailure
  · rcases shrinkingTurn_leave hleave with ⟨hfits, rfl⟩ | ⟨-, -, rfl⟩ | ⟨-, failure, -, rfl⟩
    · obtain rfl := Except.ok.inj hresult
      exact ⟨hlast, hfits⟩
    · cases hresult
    · cases hresult

/-- The error of the size limit is raised for a minimal image. -/
theorem inLoop_of_sizeLimit (hP : P.Lawful) {fuel : Nat}
    (h : processImage P fuel data mimeType options =
      some (.error (.processing SIZE_LIMIT_MESSAGE))) :
    ∃ image, InLoop P data mimeType options image ∧ isMinimumSize image = true ∧
      exceedsBase64Size image options = true := by
  rcases processImage_cases h with
    ⟨failure, hfitted, hfailure⟩ | ⟨last, hlast, result, hleave, hresult⟩
  · rw [handled_eq_sizeLimit (Except.error.inj hfailure).symm] at hfitted
    exact absurd hfitted (fittedImage_raises data mimeType options _)
  · rcases shrinkingTurn_leave hleave with
      ⟨-, rfl⟩ | ⟨hexceeds, hmin, -⟩ | ⟨hmin, failure, hshrink, rfl⟩
    · cases hresult
    · exact ⟨last, hlast, hmin, hexceeds⟩
    · rw [handled_eq_sizeLimit (Except.error.inj hresult).symm] at hshrink
      obtain ⟨oriented, -, hs⟩ := hlast.shrunk hP
      rw [shrinkByFactor_eq hs hmin] at hshrink
      exact absurd hshrink (resizeImage_raises _ _ _ _ _)

/-- Fuel for as many turns as the sides of the box allow gives an outcome, and more fuel gives no
other. -/
theorem exists_outcome (hP : P.Lawful) (hwidth : 1 ≤ options.maxWidth)
    (hheight : 1 ≤ options.maxHeight) (data : Bytes) (mimeType : ImageMimeType) :
    ∃ outcome, ∀ fuel, (options.maxWidth + options.maxHeight).toNat < fuel →
      processImage P fuel data mimeType options = some outcome := by
  rcases hfitted : fittedImage P data mimeType options with failure | fitted
  · exact ⟨.error failure.handled, fun fuel _ => by rw [processImage, hfitted]⟩
  · obtain ⟨oriented, -, hs⟩ := fittedImage_shrunk hP hfitted
    obtain ⟨result, hresult⟩ := loop_terminates (P := Shrunk oriented options)
      (fun image => (image.width + image.height).toNat) shrinkingTurn_shrunk hs
    have hbound : (fitted.width + fitted.height).toNat
        ≤ (options.maxWidth + options.maxHeight).toNat := by
      have hw := hs.width_limit
      have hh := hs.height_limit
      omega
    refine ⟨result.mapError ImageFailure.handled, fun fuel hfuel => ?_⟩
    rw [processImage, hfitted]
    exact congrArg (Option.map _) (hresult fuel (hbound.trans_lt hfuel))

/-- **The pipeline ends, within the limits.** -/
theorem processImage_terminates (hP : P.Lawful) (hwidth : 1 ≤ options.maxWidth)
    (hheight : 1 ≤ options.maxHeight) (data : Bytes) (mimeType : ImageMimeType) :
    ∃ outcome,
      (∀ fuel, (options.maxWidth + options.maxHeight).toNat < fuel →
        processImage P fuel data mimeType options = some outcome) ∧
      (∀ image, outcome = .ok image → ∃ oriented, orientedImage P data mimeType = .ok oriented ∧
        base64Size image.data < options.maxBase64Bytes ∧
        (1 ≤ image.width ∧ image.width ≤ options.maxWidth ∧ image.width ≤ oriented.width) ∧
        (1 ≤ image.height ∧ image.height ≤ options.maxHeight ∧
          image.height ≤ oriented.height)) ∧
      (outcome = .error (.processing SIZE_LIMIT_MESSAGE) →
        ∃ image, InLoop P data mimeType options image ∧ (image.width = 1 ∧ image.height = 1) ∧
          options.maxBase64Bytes ≤ base64Size image.data) ∧
      ∀ image, InLoop P data mimeType options image → isMinimumSize image = false →
        nextDimensions image.width image.height ≠ (image.width, image.height) := by
  have hunchanged : ∀ image, InLoop P data mimeType options image → isMinimumSize image = false →
      nextDimensions image.width image.height ≠ (image.width, image.height) := by
    intro image himage hmin hsame
    obtain ⟨oriented, -, hs⟩ := himage.shrunk hP
    have hlt := (nextDimensions_lt hs.width_pos hs.height_pos (not_minimal hmin)).2.2
    rw [hsame] at hlt
    exact lt_irrefl _ hlt
  obtain ⟨outcome, houtcome⟩ := exists_outcome hP hwidth hheight data mimeType
  have hrun := houtcome _ (Nat.lt_succ_self _)
  refine ⟨outcome, houtcome, ?_, ?_, hunchanged⟩
  · rintro image rfl
    obtain ⟨himage, hfits⟩ := inLoop_of_ok hrun
    obtain ⟨oriented, horiented, hs⟩ := himage.shrunk hP
    refine ⟨oriented, horiented, not_le.mp (of_decide_eq_false hfits), ?_, ?_⟩
    · exact ⟨hs.width_pos, max_eq_right hwidth ▸ hs.width_limit, hs.width_le⟩
    · exact ⟨hs.height_pos, max_eq_right hheight ▸ hs.height_limit, hs.height_le⟩
  · rintro rfl
    obtain ⟨image, himage, hmin, hexceeds⟩ := inLoop_of_sizeLimit hP hrun
    exact ⟨image, himage, of_decide_eq_true hmin, of_decide_eq_true hexceeds⟩

end Stages

/-- A photograph that is turned on its side, by its header, is resized to fit its height. -/
theorem processImage_terminates_photograph :
    ∃ image, (∀ fuel, 4000 < fuel →
        processImage headersOnly fuel (photograph 6) .jpeg {} = some (.ok image)) ∧
      base64Size image.data < DEFAULT_MAX_BASE64_BYTES ∧
      image.width ≤ DEFAULT_MAX_WIDTH ∧ image.height ≤ DEFAULT_MAX_HEIGHT := by
  have hwidth : 1 ≤ ({} : ImageProcessingOptions).maxWidth := by decide
  obtain ⟨outcome, houtcome, hok, -⟩ :=
    processImage_terminates headersOnly_lawful hwidth (by decide) (photograph 6) .jpeg
  have hreturns : (processImage headersOnly 4001 (photograph 6) .jpeg {}).all (·.isOk) = true := by
    decide +kernel
  rw [houtcome 4001 (by decide)] at hreturns
  rcases outcome with failure | image
  · cases hreturns
  · obtain ⟨oriented, -, hsize, ⟨-, hwidth, -⟩, -, hheight, -⟩ := hok image rfl
    exact ⟨image, houtcome, hsize, hwidth, hheight⟩

end Tile
