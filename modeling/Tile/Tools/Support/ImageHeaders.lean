import Tile.Tools.Support.ImageProcessing

/-!
# Tools/Support/ImageHeaders — a Pillow that knows JPEG headers

A grey JPEG of which only the header is looked at: the segments with the EXIF orientation, with the
size, and the start of the scan.  Its encoder writes just such a header.  The bytes end where the
picture would begin, so they are no file the real Pillow could decode: each stands for the
photographs that begin with it, of which the functions here ask no more than the header says.
-/

namespace Tile

/-- A picture without its pixels. -/
structure JpegHeader where
  width : Int
  height : Int
  orientation : Byte := 1
  deriving DecidableEq

namespace JpegHeader

/-- The low byte of a number. -/
def lowByte (n : Int) : Byte := Fin.ofNat _ (n % 256).toNat

/-- The bytes of the header. -/
def bytes (header : JpegHeader) : Bytes :=
  [0xFF, 0xD8,
    0xFF, 0xE1, 0, 34, 0x45, 0x78, 0x69, 0x66, 0, 0, 0x4D, 0x4D, 0, 0x2A, 0, 0, 0, 8, 0, 1,
    0x01, 0x12, 0, 3, 0, 0, 0, 1, 0, header.orientation, 0, 0, 0, 0, 0, 0,
    0xFF, 0xC0, 0, 11, 8, lowByte (header.height / 256), lowByte header.height,
    lowByte (header.width / 256), lowByte header.width, 1, 1, 0x11, 0,
    0xFF, 0xDA, 0, 8, 1, 1, 0, 0, 63, 0]

/-- The header with the values at their places, if there is one. -/
def read (data : Bytes) : Option JpegHeader :=
  let number (offset : Nat) : Int := data.getD offset 0 * 256 + data.getD (offset + 1) 0
  let header : JpegHeader :=
    { width := number 45, height := number 43, orientation := data.getD 31 0 }
  if header.bytes.isPrefixOf data ∧ 1 ≤ header.width ∧ 1 ≤ header.height then some header else none

/-- The picture is turned upright when its orientation is one of those that are. -/
def upright (header : JpegHeader) : JpegHeader :=
  if 5 ≤ header.orientation.val ∧ header.orientation.val ≤ 8 then
    { width := header.height, height := header.width }
  else { header with orientation := 1 }

theorem upright_size (header : JpegHeader) :
    (header.upright.width, header.upright.height) =
      if 5 ≤ header.orientation.val ∧ header.orientation.val ≤ 8 then
        (header.width, header.height).swap
      else (header.width, header.height) := by
  rw [upright]
  split <;> rfl

end JpegHeader

/-- It reads headers, and writes the header of a picture that was turned upright. -/
def headersOnly : Pillow where
  Picture := JpegHeader
  openBytes data := match JpegHeader.read data with
    | some header => .ok header
    | none => .error (.osError "cannot identify image file")
  size header := (header.width, header.height)
  mode _ := "L"
  getexif header tag :=
    .ok (if tag = EXIF_ORIENTATION_TAG then some (.int header.orientation.val) else none)
  exifTranspose header := .ok header.upright
  resize header size := .ok { header with width := size.1, height := size.2 }
  convert header _ := .ok header
  save header _ _ := .ok { header with orientation := 1 }.bytes

theorem headersOnly_lawful : headersOnly.Lawful where
  size_pos {data header} hopen := by
    have hread : JpegHeader.read data = some header := by
      simp only [headersOnly] at hopen
      split at hopen
      next hread => exact hread.trans (congrArg some (Except.ok.inj hopen))
      next => cases hopen
    rw [JpegHeader.read] at hread
    dsimp only at hread
    split at hread
    next hheader =>
      obtain rfl := Option.some.inj hread
      exact hheader.2
    next => cases hread
  size_exifTranspose {header upright} hupright := by
    obtain rfl := Except.ok.inj hupright
    have hswaps : headersOnly.swapsSides header
        = decide (5 ≤ header.orientation.val ∧ header.orientation.val ≤ 8) := by
      simp [Pillow.swapsSides, headersOnly]
    rw [hswaps]
    refine (JpegHeader.upright_size header).trans ?_
    simp only [decide_eq_true_eq]
    rfl

/-- A photograph of 4000 by 3000, taken with the camera turned this way: its header alone, which
Pillow itself could not decode. -/
def photograph (orientation : Byte) : Bytes :=
  ({ width := 4000, height := 3000, orientation } : JpegHeader).bytes

end Tile
