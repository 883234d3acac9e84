import Restoration.Job.Basic
import Restoration.Json.Reading

/-!
# Records of jobs

A job is filed as a JSON object, its members in a fixed order and every member written. Reading is
more tolerant: optional members may be left out, unknown ones are passed over. The processes of a
job are not filed.

    ofText j.recordText = ok { j with processes := [] }
-/

namespace Restoration

open Json

/-! ## Choices -/

/-- A choice under its filed name. -/
def Json.ofChoice {α : Type} [Choice α] (a : α) : Json := ofString (Choice.name a)

/-- The names of all values of a choice. -/
def Choice.names (α : Type) [Choice α] : List String := (Choice.all : List α).map Choice.name

/-- The value of a filed name. -/
def Json.namedChoice {α : Type} [Choice α] (name : String) : Except Fault α :=
  match Choice.ofName? name with
  | some a => .ok a
  | none => .error (.unknownVariant name (Choice.names α))

/-- Reads a choice whose values hold nothing. -/
def Json.readChoice {α : Type} [Choice α] : Reader α :=
  choice (Choice.names α) namedChoice fun name value => do
    unit value
    namedChoice name

/-- Reads a path. -/
def Json.readPath : Reader Path := fun j => (pathText j).map Path.mk

/-- A path as it is written. -/
def Json.ofPath (p : Path) : Json := ofString p.text

/-- A number of eight bits. -/
def Json.ofUInt8 (n : UInt8) : Json := ofNat n.toNat

/-- A number of thirty-two bits. -/
def Json.ofUInt32 (n : UInt32) : Json := ofNat n.toNat

/-! ## Parts of a job -/

namespace SourceTraits

def widthField : RecordField (Option UInt32) := .maybeByName "width" uint32
def heightField : RecordField (Option UInt32) := .maybeByName "height" uint32
def aspectField : RecordField (Option Float) := .maybeByName "aspect_ratio" float
def rateField : RecordField (Option Float) := .maybeByName "frame_rate" float
def matrixField : RecordField ColorMatrix := .usually "color_matrix" readChoice .rec709
def placementField : RecordField ChromaPlacement := .usually "chroma_placement" readChoice .mpeg2

/-- Reads what is known of a source. -/
def read : Reader SourceTraits := fun j => do
  let fields ← fieldsOf "struct SourceInfo" [widthField.rule, heightField.rule, aspectField.rule,
    rateField.rule, matrixField.rule, placementField.rule] j
  pure {
    width := ← widthField.get fields
    height := ← heightField.get fields
    aspectRatio := ← aspectField.get fields
    frameRate := ← rateField.get fields
    colorMatrix := ← matrixField.get fields
    chromaPlacement := ← placementField.get fields }

/-- What is known of a source, as filed. -/
def toJson (s : SourceTraits) : Json := ofMembers [
  (widthField.name, ofOption ofUInt32 s.width),
  (heightField.name, ofOption ofUInt32 s.height),
  (aspectField.name, ofOption ofFloat s.aspectRatio),
  (rateField.name, ofOption ofFloat s.frameRate),
  (matrixField.name, ofChoice s.colorMatrix),
  (placementField.name, ofChoice s.chromaPlacement)]

end SourceTraits

namespace Margins

def leftField : RecordField UInt32 := .required "left" uint32
def topField : RecordField UInt32 := .required "top" uint32
def rightField : RecordField UInt32 := .required "right" uint32
def bottomField : RecordField UInt32 := .required "bottom" uint32

/-- Reads margins. -/
def read : Reader Margins := fun j => do
  let fields ← fieldsOf "struct CropRect"
    [leftField.rule, topField.rule, rightField.rule, bottomField.rule] j
  pure {
    left := ← leftField.get fields
    top := ← topField.get fields
    right := ← rightField.get fields
    bottom := ← bottomField.get fields }

/-- Margins as filed. -/
def toJson (m : Margins) : Json := ofMembers [
  (leftField.name, ofUInt32 m.left), (topField.name, ofUInt32 m.top),
  (rightField.name, ofUInt32 m.right), (bottomField.name, ofUInt32 m.bottom)]

end Margins

namespace Boost

def passesField : RecordField UInt8 := .required "passes" uint8
def strengthField : RecordField UInt8 := .required "strength" uint8
def softnessField : RecordField UInt8 := .required "softness" uint8

/-- Reads a quality boost. -/
def read : Reader Boost := fun j => do
  let fields ← fieldsOf "struct SuperResOptions"
    [passesField.rule, strengthField.rule, softnessField.rule] j
  pure {
    passes := ← passesField.get fields
    strength := ← strengthField.get fields
    softness := ← softnessField.get fields }

/-- A quality boost as filed. -/
def toJson (b : Boost) : Json := ofMembers [
  (passesField.name, ofUInt8 b.passes), (strengthField.name, ofUInt8 b.strength),
  (softnessField.name, ofUInt8 b.softness)]

end Boost

namespace Denoising

def strengthField : RecordField UInt8 := .required "strength" uint8
def temporalField : RecordField UInt8 := .required "temporal_radius" uint8
def spatialField : RecordField UInt8 := .required "spatial_radius" uint8

/-- Reads the settings of the denoiser. -/
def read : Reader Denoising := fun j => do
  let fields ← fieldsOf "struct DenoiseOptions"
    [strengthField.rule, temporalField.rule, spatialField.rule] j
  pure {
    strength := ← strengthField.get fields
    temporalRadius := ← temporalField.get fields
    spatialRadius := ← spatialField.get fields }

/-- The settings of the denoiser as filed. -/
def toJson (d : Denoising) : Json := ofMembers [
  (strengthField.name, ofUInt8 d.strength), (temporalField.name, ofUInt8 d.temporalRadius),
  (spatialField.name, ofUInt8 d.spatialRadius)]

end Denoising

namespace Degraining

def strengthField : RecordField UInt32 := .required "strength" uint32
def prefilterField : RecordField Prefilter := .required "prefilter" readChoice

/-- Reads the settings of the degrainer. -/
def read : Reader Degraining := fun j => do
  let fields ← fieldsOf "struct DegrainOptions" [strengthField.rule, prefilterField.rule] j
  pure { strength := ← strengthField.get fields, prefilter := ← prefilterField.get fields }

/-- The settings of the degrainer as filed. -/
def toJson (d : Degraining) : Json := ofMembers [
  (strengthField.name, ofUInt32 d.strength), (prefilterField.name, ofChoice d.prefilter)]

end Degraining

namespace Stabilization

def smoothnessField : RecordField UInt32 := .required "smoothness" uint32
def edgesField : RecordField Bool := .required "edge_compensation" bool

/-- Reads the settings of the stabilizer. -/
def read : Reader Stabilization := fun j => do
  let fields ← fieldsOf "struct DeshakerOptions" [smoothnessField.rule, edgesField.rule] j
  pure { smoothness := ← smoothnessField.get fields, edgeCompensation := ← edgesField.get fields }

/-- The settings of the stabilizer as filed. -/
def toJson (s : Stabilization) : Json := ofMembers [
  (smoothnessField.name, ofUInt32 s.smoothness), (edgesField.name, ofBool s.edgeCompensation)]

end Stabilization

namespace Interpolation

/-- The names of the two kinds of interpolation. -/
def names : List String := ["Multiply", "Target"]

/-- Reads the frame rate to interpolate. -/
def read : Reader Interpolation :=
  choice names (fun _ => .error (.invalidType "unit variant" "newtype variant")) fun name value =>
    if name = "Multiply" then (uint8 value).map multiply else (float value).map target

/-- The frame rate to interpolate as filed. -/
def toJson : Interpolation → Json
  | multiply factor => ofMembers [("Multiply", ofUInt8 factor)]
  | target rate => ofMembers [("Target", ofFloat rate)]

end Interpolation

namespace Span

def startField : RecordField (Option Float) := .maybeByName "start" float
def stopField : RecordField (Option Float) := .maybeByName "end" float

/-- Reads the part of the source to keep. -/
def read : Reader Span := fun j => do
  let fields ← fieldsOf "struct TrimRange" [startField.rule, stopField.rule] j
  pure { start := ← startField.get fields, stop := ← stopField.get fields }

/-- The part of the source to keep as filed. -/
def toJson (s : Span) : Json := ofMembers [
  (startField.name, ofOption ofFloat s.start), (stopField.name, ofOption ofFloat s.stop)]

end Span

namespace Delivery

def codecField : RecordField VideoCodec := .required "codec" readChoice
def qualityField : RecordField UInt8 := .required "quality" uint8
def presetField : RecordField String := .required "preset" string
def audioField : RecordField AudioAction := .required "audio" readChoice
def containerField : RecordField Container := .required "container" readChoice

/-- Reads the format of the finished file. -/
def read : Reader Delivery := fun j => do
  let fields ← fieldsOf "struct EncodeOptions" [codecField.rule, qualityField.rule,
    presetField.rule, audioField.rule, containerField.rule] j
  pure {
    codec := ← codecField.get fields
    quality := ← qualityField.get fields
    preset := ← presetField.get fields
    audio := ← audioField.get fields
    container := ← containerField.get fields }

/-- The format of the finished file as filed. -/
def toJson (d : Delivery) : Json := ofMembers [
  (codecField.name, ofChoice d.codec), (qualityField.name, ofUInt8 d.quality),
  (presetField.name, ofString d.preset), (audioField.name, ofChoice d.audio),
  (containerField.name, ofChoice d.container)]

end Delivery

/-! ## Jobs -/

namespace Job

def sourceField : RecordField Path := .required "file_name" readPath
def directoryField : RecordField Path := .required "temp_directory" readPath
def indexField : RecordField Nat := .required "job_index" count
def traitsField : RecordField SourceTraits := .usually "source" SourceTraits.read {}
def cropSourceField : RecordField (Option Margins) := .maybe "crop_source" Margins.read
def cropAfterField : RecordField (Option Margins) := .maybe "crop_after" Margins.read
def outputWidthField : RecordField (Option UInt32) := .maybe "output_width" uint32
def outputHeightField : RecordField (Option UInt32) := .maybe "output_height" uint32
def upscaleFactorField : RecordField UInt8 := .usually "upscale_factor" uint8 0
def upscalerField : RecordField Upscaler := .usually "upscale_method" readChoice .nnedi3
def boostField : RecordField (Option Boost) := .maybe "super_res" Boost.read
def downscalerField : RecordField Downscaler := .usually "downscale_method" readChoice .spline36
def denoisingField : RecordField (Option Denoising) := .maybe "denoise" Denoising.read
def deringField : RecordField Bool := .usually "dering" bool false
def degrainingField : RecordField (Option Degraining) := .maybe "degrain" Degraining.read
def stabilizationField : RecordField (Option Stabilization) := .maybe "deshaker" Stabilization.read
def interpolationField : RecordField (Option Interpolation) :=
  .maybe "interpolation" Interpolation.read
def spanField : RecordField Span := .usually "trim" Span.read {}
def speedField : RecordField (Option Float) := .maybe "change_speed" float
def deliveryField : RecordField Delivery := .usually "encode" Delivery.read {}
def resumePositionField : RecordField Nat := .usually "resume_position" count 0
def parallelismField : RecordField UInt8 := .usually "parallelism" uint8 1
def statusField : RecordField JobStatus := .usually "status" readChoice .pending

/-- The fields of a record, in order. -/
def rules : List Rule := [
  sourceField.rule, directoryField.rule, indexField.rule, traitsField.rule, cropSourceField.rule,
  cropAfterField.rule, outputWidthField.rule, outputHeightField.rule, upscaleFactorField.rule,
  upscalerField.rule, boostField.rule, downscalerField.rule, denoisingField.rule, deringField.rule,
  degrainingField.rule, stabilizationField.rule, interpolationField.rule, spanField.rule,
  speedField.rule, deliveryField.rule, resumePositionField.rule, parallelismField.rule,
  statusField.rule]

/-- Reads a job. -/
def read : Reader Job := fun j => do
  let fields ← fieldsOf "struct EncodeSettings" rules j
  pure {
    source := ← sourceField.get fields
    directory := ← directoryField.get fields
    index := ← indexField.get fields
    traits := ← traitsField.get fields
    cropSource := ← cropSourceField.get fields
    cropAfter := ← cropAfterField.get fields
    outputWidth := ← outputWidthField.get fields
    outputHeight := ← outputHeightField.get fields
    upscaleFactor := ← upscaleFactorField.get fields
    upscaler := ← upscalerField.get fields
    boost := ← boostField.get fields
    downscaler := ← downscalerField.get fields
    denoising := ← denoisingField.get fields
    dering := ← deringField.get fields
    degraining := ← degrainingField.get fields
    stabilization := ← stabilizationField.get fields
    interpolation := ← interpolationField.get fields
    span := ← spanField.get fields
    speed := ← speedField.get fields
    delivery := ← deliveryField.get fields
    resumePosition := ← resumePositionField.get fields
    parallelism := ← parallelismField.get fields
    status := ← statusField.get fields }

/-- A job as filed. -/
def toJson (j : Job) : Json := ofMembers [
  (sourceField.name, ofPath j.source),
  (directoryField.name, ofPath j.directory),
  (indexField.name, ofNat j.index),
  (traitsField.name, j.traits.toJson),
  (cropSourceField.name, ofOption Margins.toJson j.cropSource),
  (cropAfterField.name, ofOption Margins.toJson j.cropAfter),
  (outputWidthField.name, ofOption ofUInt32 j.outputWidth),
  (outputHeightField.name, ofOption ofUInt32 j.outputHeight),
  (upscaleFactorField.name, ofUInt8 j.upscaleFactor),
  (upscalerField.name, ofChoice j.upscaler),
  (boostField.name, ofOption Boost.toJson j.boost),
  (downscalerField.name, ofChoice j.downscaler),
  (denoisingField.name, ofOption Denoising.toJson j.denoising),
  (deringField.name, ofBool j.dering),
  (degrainingField.name, ofOption Degraining.toJson j.degraining),
  (stabilizationField.name, ofOption Stabilization.toJson j.stabilization),
  (interpolationField.name, ofOption Interpolation.toJson j.interpolation),
  (spanField.name, j.span.toJson),
  (speedField.name, ofOption ofFloat j.speed),
  (deliveryField.name, j.delivery.toJson),
  (resumePositionField.name, ofNat j.resumePosition),
  (parallelismField.name, ofUInt8 j.parallelism),
  (statusField.name, ofChoice j.status)]

/-- The text of a job's record. -/
def recordText (j : Job) : String := j.toJson.pretty

/-- Reads a job from the text of its record. -/
def ofText (t : String) : Except Fault Job := readText read t

end Job

end Restoration
