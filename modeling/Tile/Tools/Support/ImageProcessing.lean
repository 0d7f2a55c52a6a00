import Mathlib.Data.Int.Log
import Mathlib.Data.List.Dedup
import Mathlib.Data.Rat.Floor
import Tile.Library.Loop
import Tile.Library.Rounding
import Tile.Text.Scalars
import Tile.ToolExecutor

/-!
# Tools/Support/ImageProcessing — preparing an image for the model

An image is turned upright, fitted into a box, and then shrunk until its base64 text is below a
limit.  Pillow is a parameter: what it opens, turns, resizes and encodes is its own affair, up to
the sizes (`Pillow.Lawful`).
-/

namespace Tile

/-! ## Pillow -/

/-- What Pillow raises. -/
inductive PillowError where
  | osError (message : String)
  | decompressionBomb (message : String)
  | other (error : PyException)
  deriving DecidableEq

/-- The value of an EXIF tag. -/
inductive ExifValue where
  | int (n : Int)
  | other
  deriving DecidableEq

/-- What the pipeline uses of Pillow. -/
structure Pillow where
  Picture : Type
  openBytes : Bytes → Except PillowError Picture
  size : Picture → Int × Int
  mode : Picture → String
  getexif : Picture → (tag : Nat) → Except PillowError (Option ExifValue)
  exifTranspose : Picture → Except PillowError Picture
  resize : Picture → Int × Int → Except PillowError Picture
  convert : Picture → (mode : String) → Except PillowError Picture
  save : Picture → (format : String) → (quality : Option Int) → Except PillowError Bytes

/-- The EXIF tag of the orientation. -/
def EXIF_ORIENTATION_TAG : Nat := 274

namespace Pillow

/-- Whether the orientation of a picture swaps its width and height when it is turned upright. -/
def swapsSides (P : Pillow) (picture : P.Picture) : Bool :=
  match P.getexif picture EXIF_ORIENTATION_TAG with
  | .ok (some (.int n)) => 5 ≤ n ∧ n ≤ 8
  | _ => false

/-- What Pillow says of the size of a picture. -/
structure Lawful (P : Pillow) : Prop where
  size_pos {data : Bytes} {picture : P.Picture} : P.openBytes data = .ok picture →
    1 ≤ (P.size picture).1 ∧ 1 ≤ (P.size picture).2
  size_exifTranspose {picture upright : P.Picture} : P.exifTranspose picture = .ok upright →
    P.size upright =
      if P.swapsSides picture then (P.size picture).swap else P.size picture

end Pillow

/-! ## The pipeline -/

/-- The width an image is resized to fit. -/
def DEFAULT_MAX_WIDTH : Int := 2000

/-- The height an image is resized to fit. -/
def DEFAULT_MAX_HEIGHT : Int := 2000

/-- `int(4.5 * 1024 * 1024)`. -/
def DEFAULT_MAX_BASE64_BYTES : Int := 4718592

/-- The quality that is asked for by default. -/
def DEFAULT_JPEG_QUALITY : Int := 80

/-- The qualities that are tried behind the one asked for. -/
def JPEG_QUALITY_STEPS : List Int := [DEFAULT_JPEG_QUALITY, 85, 70, 55, 40]

/-- The message about an image that stays too large. -/
def SIZE_LIMIT_MESSAGE : String := "could not be resized below the inline image size limit"

/-- Limits and encoding controls for image processing. -/
structure ImageProcessingOptions where
  maxWidth : Int := DEFAULT_MAX_WIDTH
  maxHeight : Int := DEFAULT_MAX_HEIGHT
  maxBase64Bytes : Int := DEFAULT_MAX_BASE64_BYTES
  jpegQuality : Int := DEFAULT_JPEG_QUALITY

/-- Image bytes and metadata after local processing. -/
structure ProcessedImage where
  data : Bytes
  mimeType : ImageMimeType
  originalWidth : Int
  originalHeight : Int
  width : Int
  height : Int
  wasResized : Bool
  deriving DecidableEq

/-- What the pipeline raises: its own `ImageProcessingError`, or what it does not handle. -/
inductive ImageFailure where
  | processing (message : String)
  | pillow (error : PillowError)
  | zeroDivision
  deriving DecidableEq

/-- One encoded image candidate for the current dimensions. -/
structure EncodedCandidate where
  data : Bytes
  mimeType : ImageMimeType

/-! ### Sizes -/

/-- The character of six bits. -/
def base64Char (n : Nat) : Char :=
  "ABCDEFGHIJKLMNOPQRSTUVWXYZabcdefghijklmnopqrstuvwxyz0123456789+/".toList.getD n '='

/-- `base64.b64encode`. -/
def b64encode : Bytes → Text
  | [] => []
  | [a] => [base64Char (a / 4), base64Char (a % 4 * 16), '=', '=']
  | [a, b] =>
    [base64Char (a / 4), base64Char (a % 4 * 16 + b / 16), base64Char (b % 16 * 4), '=']
  | a :: b :: c :: rest =>
    base64Char (a / 4) :: base64Char (a % 4 * 16 + b / 16) :: base64Char (b % 16 * 4 + c / 64) ::
      base64Char (c % 64) :: b64encode rest

/-- The byte size of the base64 representation. -/
def base64Size (data : Bytes) : Int := (b64encode data).length

/-- Whether an image exceeds the configured base64 payload size. -/
def exceedsBase64Size (image : ProcessedImage) (options : ImageProcessingOptions) : Bool :=
  base64Size image.data ≥ options.maxBase64Bytes

/-- Whether an image can no longer be downscaled. -/
def isMinimumSize (image : ProcessedImage) : Bool := image.width = 1 ∧ image.height = 1

/-- `round(a / b)`, of the exact quotient. -/
def roundQuotient (a b : Int) : Except ImageFailure Int :=
  if b = 0 then .error .zeroDivision else .ok (roundHalfEven (a / b : ℚ))

/-- Dimensions fitted inside the configured max box. -/
def fitDimensions (width height : Int) (options : ImageProcessingOptions) :
    Except ImageFailure (Int × Int) := do
  let mut fittedWidth := width
  let mut fittedHeight := height
  if fittedWidth > options.maxWidth then
    fittedHeight ← roundQuotient (fittedHeight * options.maxWidth) fittedWidth
    fittedWidth := options.maxWidth
  if fittedHeight > options.maxHeight then
    fittedWidth ← roundQuotient (fittedWidth * options.maxHeight) fittedHeight
    fittedHeight := options.maxHeight
  return (max 1 fittedWidth, max 1 fittedHeight)

/-- The next progressively smaller image dimensions. -/
def nextDimensions (width height : Int) : Int × Int :=
  let nextWidth := if width = 1 then 1 else max 1 ((width * 3).tdiv 4)
  let nextHeight := if height = 1 then 1 else max 1 ((height * 3).tdiv 4)
  if nextWidth = width ∧ nextHeight = height then (1, 1) else (nextWidth, nextHeight)

/-- Unique JPEG quality attempts in preferred order. -/
def jpegQualitySteps (options : ImageProcessingOptions) : List Int :=
  (options.jpegQuality :: JPEG_QUALITY_STEPS).eraseDups

/-- The Pillow save format for a MIME type. -/
def imageFormat : ImageMimeType → String
  | .jpeg => "JPEG"
  | .png => "PNG"
  | .gif => "GIF"
  | .webp => "WEBP"

section Pipeline

variable (P : Pillow)

/-! ### Encoding -/

/-- Open bytes as a Pillow image. -/
def openImage (data : Bytes) : Except ImageFailure P.Picture := (P.openBytes data).mapError .pillow

/-- An image mode compatible with the target encoder. -/
def prepareForEncoding (image : P.Picture) (mimeType : ImageMimeType) :
    Except ImageFailure P.Picture :=
  if mimeType = .jpeg ∧ P.mode image ≠ "RGB" ∧ P.mode image ≠ "L" then
    (P.convert image "RGB").mapError .pillow
  else .ok image

/-- Encode an image as a specific MIME type. -/
def encodeImage (image : P.Picture) (mimeType : ImageMimeType) (quality : Option Int) :
    Except ImageFailure EncodedCandidate := do
  let preparedImage ← prepareForEncoding P image mimeType
  let data ← (P.save preparedImage (imageFormat mimeType) quality).mapError .pillow
  return { data, mimeType }

/-- PNG and JPEG encodings for the current dimensions: the first, and the others. -/
def encodedCandidates (image : P.Picture) (options : ImageProcessingOptions) :
    Except ImageFailure (EncodedCandidate × List EncodedCandidate) := do
  let png ← encodeImage P image .png none
  let jpegs ← (jpegQualitySteps options).mapM fun quality =>
    encodeImage P image .jpeg (some quality)
  return (png, jpegs)

/-- `min(candidates, key=...)`: the first one of the smallest. -/
def smallestCandidate (first : EncodedCandidate) (others : List EncodedCandidate) :
    EncodedCandidate :=
  others.foldl
    (fun best candidate => if base64Size candidate.data < base64Size best.data then candidate
      else best) first

/-- The first fitting candidate, or the smallest encoded fallback. -/
def bestEncodedCandidate (image : P.Picture) (options : ImageProcessingOptions) :
    Except ImageFailure EncodedCandidate := do
  let (first, others) ← encodedCandidates P image options
  return ((first :: others).find? fun candidate =>
    base64Size candidate.data < options.maxBase64Bytes).getD (smallestCandidate first others)

/-! ### The stages -/

/-- A processed image from original file bytes. -/
def createProcessedImage (data : Bytes) (mimeType : ImageMimeType) :
    Except ImageFailure ProcessedImage := do
  let (width, height) := P.size (← openImage P data)
  return {
    data, mimeType, originalWidth := width, originalHeight := height, width, height,
    wasResized := false }

/-- Replace processed image bytes and mutable metadata. -/
def replaceWithEncodedImage (image : ProcessedImage) (candidate : EncodedCandidate)
    (width height : Int) (wasResized : Bool) : ProcessedImage :=
  { image with data := candidate.data, mimeType := candidate.mimeType, width, height, wasResized }

/-- Whether an image has a meaningful EXIF orientation tag. -/
def hasExifOrientation (image : P.Picture) : Except ImageFailure Bool := do
  let orientation ← (P.getexif image EXIF_ORIENTATION_TAG).mapError .pillow
  return match orientation.getD (.int 1) with
    | .int n => n ≠ 1
    | .other => false

/-- Apply EXIF orientation to an image when present. -/
def applyExifOrientation (image : ProcessedImage) : Except ImageFailure ProcessedImage := do
  if image.mimeType ≠ .jpeg then return image
  let currentImage ← openImage P image.data
  if ← hasExifOrientation P currentImage then
    let orientedImage ← (P.exifTranspose currentImage).mapError .pillow
    let candidate ← encodeImage P orientedImage image.mimeType (some DEFAULT_JPEG_QUALITY)
    let (width, height) := P.size orientedImage
    return replaceWithEncodedImage image candidate width height false
  else return image

/-- Resize and encode an image using ordered candidates. -/
def resizeImage (image : ProcessedImage) (width height : Int) (options : ImageProcessingOptions) :
    Except ImageFailure ProcessedImage := do
  let currentImage ← openImage P image.data
  let resizedImage ← (P.resize currentImage (width, height)).mapError .pillow
  let encoded ← bestEncodedCandidate P resizedImage options
  return replaceWithEncodedImage image encoded width height true

/-- Resize once to fit inside the configured max box. -/
def resizeToFitDimensions (image : ProcessedImage) (options : ImageProcessingOptions) :
    Except ImageFailure ProcessedImage := do
  let (width, height) ← fitDimensions image.width image.height options
  if width = image.width ∧ height = image.height then return image
  resizeImage P image width height options

/-- Shrink dimensions by the progressive downscale factor. -/
def shrinkByFactor (image : ProcessedImage) (options : ImageProcessingOptions) :
    Except ImageFailure ProcessedImage :=
  let (width, height) := nextDimensions image.width image.height
  if width = image.width ∧ height = image.height then .error (.processing SIZE_LIMIT_MESSAGE)
  else resizeImage P image width height options

/-- The upright image. -/
def orientedImage (data : Bytes) (mimeType : ImageMimeType) : Except ImageFailure ProcessedImage :=
  do applyExifOrientation P (← createProcessedImage P data mimeType)

/-- The image before the loop. -/
def fittedImage (data : Bytes) (mimeType : ImageMimeType) (options : ImageProcessingOptions) :
    Except ImageFailure ProcessedImage :=
  do resizeToFitDimensions P (← orientedImage P data mimeType) options

/-- One turn of the loop that shrinks the image. -/
def shrinkingTurn (options : ImageProcessingOptions) (image : ProcessedImage) :
    Turn ProcessedImage (Except ImageFailure ProcessedImage) :=
  if exceedsBase64Size image options then
    if isMinimumSize image then .leave (.error (.processing SIZE_LIMIT_MESSAGE))
    else match shrinkByFactor P image options with
      | .ok image => .again image
      | .error failure => .leave (.error failure)
  else .leave (.ok image)

/-- What the handler of `processImage` makes of a failure. -/
def ImageFailure.handled : ImageFailure → ImageFailure
  | .pillow (.osError message) => .processing s!"could not be processed ({message})"
  | .pillow (.decompressionBomb message) => .processing s!"could not be processed ({message})"
  | failure => failure

/-- Run the image processing pipeline; `none` when the fuel is too little for the loop. -/
def processImage (fuel : Nat) (data : Bytes) (mimeType : ImageMimeType)
    (options : ImageProcessingOptions) : Option (Except ImageFailure ProcessedImage) :=
  match fittedImage P data mimeType options with
  | .error failure => some (.error failure.handled)
  | .ok image => (loop (shrinkingTurn P options) fuel image).map (·.mapError ImageFailure.handled)

end Pipeline

/-! ### The coordinate note -/

/-- A non-negative number as `.2f` shows it. -/
def twoDecimals (q : ℚ) : String :=
  let hundredths := (roundHalfEven (q * 100)).toNat
  s!"{hundredths / 100}." ++
    String.ofList [Nat.digitChar (hundredths / 10 % 10), Nat.digitChar (hundredths % 10)]

/-- The double that is nearest to a positive number, of two the even one; no quotient of sizes is as
large as the largest double. -/
def toDouble (q : ℚ) : ℚ :=
  let place := max (Int.log 2 q - 52) (-1074)
  roundHalfEven (q / 2 ^ place) * 2 ^ place

/-- `original_width / width`, the exact quotient. -/
def ProcessedImage.scale (image : ProcessedImage) : ℚ := image.originalWidth / image.width

/-- The note shows the quotient as Python divides: `scale` is a float. -/
def ProcessedImage.coordinateNote (image : ProcessedImage) : String :=
  s!"[Image: original {image.originalWidth}x{image.originalHeight}, " ++
    s!"displayed at {image.width}x{image.height}. Multiply coordinates by " ++
    s!"{twoDecimals (toDouble image.scale)} to map to original image.]"

/-- 2030/2000 is just below 1.015 as a float, and the exact quotient would be shown as 1.02. -/
example : twoDecimals (toDouble (2030 / 2000)) = "1.01" := by decide +kernel

/-- A coordinate mapping note when this image was resized. -/
def ProcessedImage.dimensionNote (image : ProcessedImage) : Except ImageFailure (Option String) :=
  if ¬ image.wasResized then .ok none
  else if image.width = 0 then .error .zeroDivision
  else .ok (some image.coordinateNote)

end Tile
