import Restoration.Job.Choices

/-!
# Sample formats

A filter graph carries samples of one of three formats and converts between them one step at a
time. `FormatState` follows a graph along its stages: the format it carries, the colour matrix that
still waits for conversion, and whether depth was already promoted, which may happen only once.

    s.apply c = ok t   →   s.samples = c.input ∧ t.samples = c.output
-/

namespace Restoration

/-- The representation of samples between two filters. Full chroma exists only at extended depth. -/
inductive SampleFormat where
  /-- Eight bits, chroma halved both ways. -/
  | standard
  /-- Sixteen bits stacked, chroma halved both ways. -/
  | extended
  /-- Sixteen bits stacked, full chroma. -/
  | extendedFullChroma
  deriving DecidableEq, Repr, Inhabited

/-- The input that a stage accepts. -/
inductive Requirement where
  | any
  | exactly (format : SampleFormat)
  deriving DecidableEq, Repr

/-- What a stage can be fed, before the state of the graph is known. -/
inductive Contract where
  | any
  | standard
  /-- Sixteen bits as long as depth was not flushed, eight bits afterwards. -/
  | prefersExtended (fullChroma : Bool)
  deriving DecidableEq, Repr

/-- One step from one sample format to the next. -/
inductive Conversion where
  | promoteDepth
  | promoteChroma
  | reduceChroma
  | flushDepth
  deriving DecidableEq, Repr

/-- The samples of a graph at one point. -/
structure FormatState where
  samples : SampleFormat
  /-- The matrix of the source, while it is not yet converted to Rec. 709. -/
  pendingMatrix : Option ColorMatrix
  /-- Was depth promoted at some earlier point? -/
  depthPromoted : Bool
  deriving DecidableEq, Repr

namespace SampleFormat

/-- The format in words. -/
def label : SampleFormat → String
  | standard => "8-bit 4:2:0"
  | extended => "16-bit stacked 4:2:0"
  | extendedFullChroma => "16-bit stacked 4:4:4"

/-- Sixteen bits per sample? -/
def isExtended : SampleFormat → Bool
  | standard => false
  | _ => true

/-- Chroma at the resolution of luma? -/
def isFullChroma : SampleFormat → Bool
  | extendedFullChroma => true
  | _ => false

end SampleFormat

namespace Requirement

/-- The requirement in words. -/
def label : Requirement → String
  | any => "any"
  | exactly f => f.label

/-- Do samples of this format meet the requirement? -/
def satisfiedBy : Requirement → SampleFormat → Bool
  | any, _ => true
  | exactly f, samples => f == samples

end Requirement

namespace Conversion

/-- The name of the conversion. -/
def label : Conversion → String
  | promoteDepth => "PromoteDepth"
  | promoteChroma => "PromoteChroma"
  | reduceChroma => "ReduceChroma"
  | flushDepth => "FlushDepth"

/-- The format that the conversion is applied to. -/
def input : Conversion → SampleFormat
  | promoteDepth => .standard
  | promoteChroma => .extended
  | reduceChroma => .extendedFullChroma
  | flushDepth => .extended

/-- The format that the conversion leaves. -/
def output : Conversion → SampleFormat
  | promoteDepth => .extended
  | promoteChroma => .extendedFullChroma
  | reduceChroma => .extended
  | flushDepth => .standard

end Conversion

/-- Why samples cannot be converted or used. -/
inductive FormatFault where
  | mismatch (stage : String) (required : Requirement) (actual : SampleFormat)
  | invalidConversion (conversion : Conversion) (actual : SampleFormat)
  | repeatedPromotion
  | unresolved (samples : SampleFormat) (matrixPending : Bool)
  deriving DecidableEq, Repr

/-- The fault in words. -/
def FormatFault.message : FormatFault → String
  | mismatch stage required actual =>
    "Stage " ++ stage ++ " requires " ++ required.label ++ " input but the graph is " ++
      actual.label
  | invalidConversion conversion actual =>
    "Conversion " ++ conversion.label ++ " cannot be applied to " ++ actual.label ++ " samples"
  | repeatedPromotion => "Depth was already promoted once in this graph"
  | unresolved samples pending =>
    "Script left unresolved at output: " ++ samples.label ++
      " samples, pending color matrix fix: " ++ (if pending then "true" else "false")

namespace FormatState

/-- The state behind a freshly opened source. -/
def ofSource (matrix : ColorMatrix) : FormatState where
  samples := .standard
  pendingMatrix := if matrix = .rec709 then none else some matrix
  depthPromoted := false

/-- Nothing is left to convert. -/
def isResolved (s : FormatState) : Bool :=
  s.samples == .standard && s.pendingMatrix.isNone

/-- The steps from one format to another. -/
def steps : SampleFormat → SampleFormat → List Conversion
  | .standard, .standard => []
  | .standard, .extended => [.promoteDepth]
  | .standard, .extendedFullChroma => [.promoteDepth, .promoteChroma]
  | .extended, .standard => [.flushDepth]
  | .extended, .extended => []
  | .extended, .extendedFullChroma => [.promoteChroma]
  | .extendedFullChroma, .standard => [.reduceChroma, .flushDepth]
  | .extendedFullChroma, .extended => [.reduceChroma]
  | .extendedFullChroma, .extendedFullChroma => []

/-- The conversions that bring the samples to what `requirement` asks for. -/
def transitionsTo (s : FormatState) : Requirement → List Conversion
  | .any => []
  | .exactly f => steps s.samples f

/-- What a stage with this contract requires at this point: extended samples only while promotion
still lies ahead or its samples have not been flushed. -/
def requirementFor (s : FormatState) : Contract → Requirement
  | .any => .any
  | .standard => .exactly .standard
  | .prefersExtended fullChroma =>
    match s.samples, s.depthPromoted, fullChroma with
    | .standard, true, _ => .exactly .standard
    | .extendedFullChroma, _, _ => .exactly .extendedFullChroma
    | _, _, true => .exactly .extendedFullChroma
    | _, _, false => .exactly .extended

/-- The state behind a conversion. -/
def apply (s : FormatState) (c : Conversion) : Except FormatFault FormatState :=
  if s.samples ≠ c.input then .error (.invalidConversion c s.samples)
  else if c = .promoteDepth ∧ s.depthPromoted then .error .repeatedPromotion
  else .ok { s with samples := c.output, depthPromoted := s.depthPromoted || c == .promoteDepth }

/-- The state behind conversions up to the first that fails, the conversions done, and the fault of
the one that fails. -/
def applyAll (s : FormatState) :
    List Conversion → FormatState × List Conversion × Option FormatFault
  | [] => (s, [], none)
  | c :: rest =>
    match s.apply c with
    | .error fault => (s, [], some fault)
    | .ok t =>
      let (t, done, fault) := applyAll t rest
      (t, c :: done, fault)

/-- Refuses samples that do not meet the requirement of the named stage. -/
def require (s : FormatState) (stage : String) (requirement : Requirement) :
    Except FormatFault Unit :=
  if requirement.satisfiedBy s.samples then .ok ()
  else .error (.mismatch stage requirement s.samples)

/-- The state with other samples. -/
def withSamples (s : FormatState) (samples : SampleFormat) : FormatState := { s with samples }

/-- The state behind the conversion of the colour matrix. -/
def matrixCorrected (s : FormatState) : FormatState := { s with pendingMatrix := none }

end FormatState

end Restoration
