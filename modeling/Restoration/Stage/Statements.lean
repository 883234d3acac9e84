import Restoration.Decimal.Layout
import Restoration.Script.Basic
import Restoration.Stage.Basic

/-!
# Statements of a stage

What a stage or a conversion writes into a script: the functions it depends on and its own lines.
The lines depend on the samples that the graph carries at that point; a stage that cannot take
them refuses.
-/

namespace Restoration

/-- A part of a script. -/
structure Statements where
  dependencies : List Dependency := []
  lines : List Line
  deriving DecidableEq, Repr

namespace Statements

/-- A plugin that is loaded by its file name. -/
def plugin (file : String) : Dependency := .loadPlugin ⟨file⟩

/-- A script that is imported by its file name. -/
def imported (file : String) : Dependency := .importScript ⟨file⟩

/-- A truth value in a script. -/
def flag (b : Bool) : String := if b then "true" else "false"

/-- Text between double quotes. -/
def quoted (s : String) : String := "\"" ++ s ++ "\""

/-- A call of a function. -/
def call (function : String) (arguments : List String) : String :=
  function ++ "(" ++ ", ".intercalate arguments ++ ")"

/-- The dither tools and the masks they rely on. -/
def ditherTools : List Dependency :=
  [plugin "mt_masktools-26.dll", plugin "dither.dll", imported "dither.avsi"]

end Statements

open Statements

/-! ## Conversions -/

/-- The call that converts samples. Stacked clips are twice as high as the picture. -/
def Conversion.callText (c : Conversion) (placement : ChromaPlacement) : String :=
  match c with
  | promoteDepth => call "Dither_convert_8_to_16" []
  | promoteChroma =>
    call "Dither_resize16nr"
      ["Width", "Height/2", "csp=" ++ quoted "YV24", "cplace=" ++ quoted (Choice.label placement)]
  | reduceChroma => call "Dither_resize16nr" ["Width", "Height/2", "csp=" ++ quoted "YV12"]
  | flushDepth => call "DitherPost" []

/-- The statements of a conversion; it refuses samples of another format than its input. -/
def Conversion.statements (c : Conversion) (placement : ChromaPlacement) (s : FormatState) :
    Except FormatFault Statements :=
  if s.samples ≠ c.input then .error (.invalidConversion c s.samples)
  else .ok { dependencies := ditherTools, lines := [.term (c.callText placement)] }

/-! ## Filters -/

/-- What marks the line that restricts a script to one chunk. -/
def FrameCut.mark : String := "segment"

/-- The call that keeps the frames of a cut. The engine takes a last frame of zero for the end of
the clip and a negative one for a number of frames. -/
def FrameCut.callText (cut : FrameCut) : String :=
  let last := match cut.last with
    | some last => if last ≤ cut.first then "-1" else Numeral.text last
    | none => "0"
  call "Trim" [Numeral.text cut.first, last]

/-- The line of a cut. -/
def FrameCut.line (cut : FrameCut) : Line :=
  if cut.marked then .termWithComment cut.callText FrameCut.mark else .term cut.callText

/-- The line of a crop. -/
def Margins.line (m : Margins) : Line :=
  .term (call "Crop"
    [Numeral.text m.left.toNat, Numeral.text m.top.toNat, "-" ++ Numeral.text m.right.toNat,
      "-" ++ Numeral.text m.bottom.toNat])

/-- The statements of the denoiser. Chroma is denoised together with luma only at full chroma. -/
def Denoising.statements (d : Denoising) (gpu : Bool) (s : FormatState) : Statements where
  dependencies := [plugin "KNLMeansCL.dll"]
  lines := [.term (call "KNLMeansCL"
    ["D=" ++ Numeral.text d.temporalRadius.toNat, "A=" ++ Numeral.text d.spatialRadius.toNat,
      "h=" ++ Numeral.text d.strength.toNat, "cmode=" ++ flag s.samples.isFullChroma,
      "lsb_inout=" ++ flag s.samples.isExtended,
      "device_type=" ++ quoted (if gpu then "GPU" else "CPU")])]

/-- The statements of the deringer. -/
def deringStatements (s : FormatState) : Statements where
  dependencies := (if s.samples.isExtended then ditherTools else []) ++
    [plugin "RgTools.dll", imported "HQDeringmod.avsi"]
  lines := [.term (call "HQDeringmod"
    ["lsb_in=" ++ flag s.samples.isExtended, "lsb=" ++ flag s.samples.isExtended])]

/-- The number of the prefilter in calls of the degrainer. -/
def Prefilter.code : Prefilter → String
  | none => "-1"
  | gaussian => "1"
  | knlMeans => "4"

/-- The statements of the degrainer. -/
def Degraining.statements (d : Degraining) (s : FormatState) : Statements where
  dependencies := [plugin "mvtools2.dll", plugin "RgTools.dll", plugin "mt_masktools-26.dll",
    imported "SMDegrain.avsi"] ++
    (if d.prefilter = .knlMeans then [plugin "KNLMeansCL.dll"] else [])
  lines := [.term (call "SMDegrain"
    ["tr=2", "thSAD=" ++ Numeral.text d.strength.toNat, "prefilter=" ++ d.prefilter.code,
      "lsb_in=" ++ flag s.samples.isExtended, "lsb_out=" ++ flag s.samples.isExtended])]

/-- The positional settings of the stabilizer; the engine puts the frame size into them. -/
def Deshaking.settingsText (d : Deshaking) : String :=
  let pass := match d.pass with
    | .analyze => "1"
    | .stabilize => "2"
  let smoothness := Numeral.text d.options.smoothness.toNat
  let edges := if d.options.edgeCompensation then "1" else "0"
  "\"19|" ++ pass ++ "|30|4|1|0|1|0|\" + String(Width) + \"|\" + String(Height) + \"|1|2|" ++
    "|".intercalate [smoothness, smoothness, smoothness, smoothness] ++ "|4|1|" ++ edges ++
    "|2|8|30|300|4|" ++ d.log.text ++
    "|0|0|0|0|0|0|0|0|0|0|0|0|0|1|15|15|5|15|0|0|30|30|0|0|0|0|1|0|0|10|1000|1|88|1|1|20|5000|100|20|1\""

/-- The statements of the stabilizer, which works on RGB. -/
def Deshaking.statements (d : Deshaking) : Statements where
  dependencies := [.loadVirtualDubPlugin ⟨"Deshaker.vdf"⟩ "Deshaker" 0]
  lines := [.term "ConvertToRGB32()", .term (call "Deshaker" [d.settingsText]),
    .term "ConvertToYV12()"]

/-- The statements of motion interpolation. -/
def InterpolatedRate.statements (rate : InterpolatedRate) (threads : Nat) (gpu : Bool) :
    Statements where
  dependencies := [plugin "svpflow1.dll", plugin "svpflow2.dll", imported "InterFrame2.avsi"]
  lines :=
    let (numerator, denominator) := match rate with
      | multiple factor =>
        ("FrameRateNumerator*" ++ Numeral.text factor.toNat, "FrameRateDenominator")
      | fixed rate => (Numeral.text rate.numerator, Numeral.text rate.denominator)
    [.term (call "InterFrame"
      ["Cores=" ++ Numeral.text threads, "GPU=" ++ flag gpu, "NewNum=" ++ numerator,
        "NewDen=" ++ denominator])]

/-- The statements of a scaling to a given size. -/
def resizeStatements (size : FrameSize) (kernel : Downscaler) (s : FormatState) :
    Except FormatFault Statements :=
  let width := Numeral.text size.width
  let height := Numeral.text size.height
  if s.samples.isExtended then
    if kernel = .ssim then .error (.mismatch "Resize" (.exactly .standard) s.samples)
    else .ok {
      dependencies := ditherTools
      lines := [.term
        (call "Dither_resize16nr" [width, height, "kernel=" ++ quoted kernel.kernel])] }
  else match kernel.resizer? with
    | some resizer => .ok { lines := [.term (call resizer [width, height])] }
    | none => .ok {
      dependencies := [plugin "mt_masktools-26.dll", imported "SSimDownscaler.avsi"]
      lines := [.term (call "SSimDownscaler" [width, height])] }

/-! ## Colour matrix -/

/-- The conversion of stacked samples, through planar RGB. -/
def ColorMatrix.stackedStatements (m : ColorMatrix) (s : FormatState) : Statements where
  dependencies := ditherTools
  lines :=
    let (matrix, tvRange) := match m with
      | rec601 => ("601", true)
      | pc601 => ("601", false)
      | rec709 => ("709", true)
      | pc709 => ("709", false)
    let planes := if s.samples.isFullChroma then "YV24" else "YV12"
    [.term (call "Dither_convert_yuv_to_rgb"
      ["matrix=" ++ quoted matrix, "tv_range=" ++ flag tvRange, "lsb_in=true",
        "output=" ++ quoted "rgb48y"]),
     .term (call "Dither_convert_rgb_to_yuv"
      ["SelectEvery(3, 0)", "SelectEvery(3, 1)", "SelectEvery(3, 2)", "matrix=" ++ quoted "709",
        "lsb=true", "output=" ++ quoted planes])]

/-- The statements of the conversion to Rec. 709. -/
def ColorMatrix.statements (m : ColorMatrix) (s : FormatState) : Statements :=
  if m = rec709 then { lines := [] }
  else if s.samples.isExtended then m.stackedStatements s
  else match m with
    | rec709 => { lines := [] }
    | pc709 => { lines := [.term "ColorYUV(levels=\"PC->TV\")"] }
    | rec601 => {
      dependencies := [plugin "ColorMatrix.dll"]
      lines := [.term "ColorMatrix(mode=\"Rec.601->Rec.709\")"] }
    | pc601 => {
      dependencies := [plugin "ColorMatrix.dll"]
      lines := [.term "ColorMatrix(mode=\"Rec.601->Rec.709\", inputFR=true)"] }

/-! ## Upscaling -/

namespace Upscaling

/-- What a pass of the upscaler depends on. -/
def dependencies (u : Upscaling) : List Dependency :=
  match u.upscaler, u.boost.isSome with
  | .nnedi3, false => [plugin "nnedi3.dll"]
  | .superXbr, false => [plugin "Shader.dll", imported "SuperXBR.avsi"]
  | .nnedi3, true => [plugin "Shader.dll", plugin "nnedi3.dll", imported "SuperRes.avsi"]
  | .superXbr, true => [plugin "Shader.dll", imported "SuperXBR.avsi", imported "SuperResXBR.avsi"]

/-- The arguments for the scaling at the end of the pass. -/
def finalArguments (u : Upscaling) : List String :=
  match u.finalResize with
  | some r =>
    ["fWidth=" ++ Numeral.text r.size.width, "fHeight=" ++ Numeral.text r.size.height,
      "fKernel=" ++ quoted (Choice.label r.kernel)]
  | none => []

/-- The arguments of the plain doubling by neural edge interpolation. -/
def doubling (shift : String) : List String := ["2", "nns=4", "cshift=" ++ quoted shift]

/-- The call without quality boost. -/
def plainCall (u : Upscaling) (s : FormatState) : String :=
  match u.upscaler with
  | .nnedi3 =>
    match u.finalResize with
    | some r =>
      match r.kernel.resizer? with
      | some resizer =>
        call "nnedi3_rpow2" (doubling resizer ++
          ["fwidth=" ++ Numeral.text r.size.width, "fheight=" ++ Numeral.text r.size.height])
      | none => call "nnedi3_rpow2" (doubling "Spline16Resize")
    | none => call "nnedi3_rpow2" (doubling "Spline16Resize")
  | .superXbr =>
    call "SuperXBR"
      (["lsb_in=" ++ flag s.samples.isExtended, "lsb_out=" ++ flag s.samples.isExtended]
        ++ u.finalArguments)

/-- The call with quality boost. Its input matrix is the one that is still pending. -/
def boostedCall (u : Upscaling) (b : Boost) (s : FormatState) : String :=
  let amounts := [Numeral.text b.passes.toNat, Decimal.hundredths b.strength.toNat,
    Decimal.hundredths b.softness.toNat]
  let format :=
    ["MatrixIn=" ++ quoted (Choice.label (s.pendingMatrix.getD .rec709)),
      "lsb_in=" ++ flag s.samples.isExtended, "lsb_out=" ++ flag s.samples.isExtended]
      ++ (if u.lastPass && s.samples.isFullChroma then ["fCsp=" ++ quoted "YV12"] else [])
      ++ u.finalArguments
  match u.upscaler with
  | .nnedi3 =>
    let inner :=
      call "nnedi3_rpow2" (doubling "Spline16Resize" ++ ["threads=" ++ Numeral.text u.threads])
    call "SuperRes" (amounts ++ [quoted (quoted (quoted inner))] ++ format)
  | .superXbr => call "SuperResXBR" (amounts ++ format)

/-- The statements of one doubling pass. -/
def statements (u : Upscaling) (s : FormatState) : Statements where
  dependencies := u.dependencies
  lines := [.term (match u.boost with
    | none => u.plainCall s
    | some b => u.boostedCall b s)]

end Upscaling

/-! ## Stages -/

/-- What marks the frame around a preview. -/
def previewMark : String := "preview"

/-- The line that opens the source. -/
def sourceLine (clip : Path) (rate : Option FrameRate) : Line :=
  .term (call "LWLibavVideoSource" ([quoted clip.forEngine.text, "cache=false"] ++
    match rate with
    | some r => ["fpsnum=" ++ Numeral.text r.numerator, "fpsden=" ++ Numeral.text r.denominator]
    | none => []))

/-- The statements of a stage for the samples that it is fed. -/
def Stage.statements (stage : Stage) (s : FormatState) : Except FormatFault Statements :=
  match stage with
  | source clip rate => .ok {
      dependencies := [plugin "LSMASHSource.dll"]
      lines := [sourceLine clip rate] }
  | retime rate => .ok {
      lines := [.term (call "AssumeFPS"
        [Numeral.text rate.numerator, Numeral.text rate.denominator])] }
  | trim cut => .ok { lines := [cut.line] }
  | crop margins => .ok { lines := [margins.line] }
  | denoise options gpu _ => .ok (options.statements gpu s)
  | dering => .ok (deringStatements s)
  | upscale pass => .ok (pass.statements s)
  | degrain options => .ok (options.statements s)
  | deshake run => .ok run.statements
  | interpolate rate threads gpu => .ok (rate.statements threads gpu)
  | resize size kernel => resizeStatements size kernel s
  | correctMatrix m => .ok (m.statements s)
  | output => .ok { lines := [] }
  | preview => .ok {
      lines := [.termWithComment "AddBorders(2, 2, 2, 2, $FF0000)" previewMark,
        .term "ConvertToRGB32()"] }
  | prefetch threads => .ok { lines := [.term (call "Prefetch" [Numeral.text threads])] }

end Restoration
