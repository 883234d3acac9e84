import Restoration.Proofs.Script.Call

/-!
# Replaying the formats of a script

A script is replayed from its text alone: statements that convert samples change the format, every
other statement leaves it, and each has to suit the format that it meets. Parts of a script replay
one behind the other:

    Replays free f a g → Replays free g b h → Replays free f (a ++ b) h
-/

namespace Restoration

open SampleFormat (standard extended extendedFullChroma)
open Statements

/-- What stands ahead of the value of a parameter. -/
def keyText (name : String) : List Char := (name ++ "=").toList

/-- The value that an argument gives to a parameter. -/
def valueOf? (name argument : String) : Option String :=
  (Text.dropLead? (keyText name) argument.toList).map String.ofList

namespace Call

/-- Does some argument of the call give `value` to a parameter? -/
def gives (c : Call) (name value : String) : Bool :=
  c.arguments.any fun a => valueOf? name a == some value

/-- The formats ahead of and behind a call that converts samples. -/
def change? (c : Call) : Option (SampleFormat × SampleFormat) :=
  if c.function = "Dither_convert_8_to_16" then some (standard, extended)
  else if c.function = "DitherPost" then some (extended, standard)
  else if c.function = "Dither_resize16nr" ∧ c.gives "csp" (quoted "YV24") then
    some (extended, extendedFullChroma)
  else if c.function = "Dither_resize16nr" ∧ c.gives "csp" (quoted "YV12") then
    some (extendedFullChroma, extended)
  else if (c.function = "SuperRes" ∨ c.function = "SuperResXBR") ∧
      c.gives "fCsp" (quoted "YV12") then
    some (extendedFullChroma, extended)
  else none

/-- The format behind a call. -/
def behind (c : Call) (f : SampleFormat) : SampleFormat := (c.change?.map Prod.snd).getD f

end Call

/-- The functions that work on eight bits only. -/
def eightBitFunctions : List String :=
  ["Crop", "nnedi3_rpow2", "Deshaker", "InterFrame", "BicubicResize", "Spline36Resize",
    "LanczosResize", "SSimDownscaler", "ColorMatrix", "ColorYUV", "AddBorders"]

/-- The functions that work on sixteen bits only. -/
def sixteenBitFunctions : List String := ["Dither_resize16nr", "Dither_convert_yuv_to_rgb"]

/-- The functions that are told the name of a file. They have no parameter for the format, but a
name can spell anything. -/
def namingFunctions : List String := ["LWLibavVideoSource", "Deshaker"]

/-- The parameters that say whether samples have sixteen bits. -/
def depthFlags : List String := ["lsb_in", "lsb_out", "lsb_inout", "lsb"]

/-- The parameters that say something about the format. -/
def formatParameters : List String := depthFlags ++ ["cmode", "output", "csp", "fCsp"]

/-- What an argument says about the format is true of `f`. -/
structure Agrees (f : SampleFormat) (a : String) : Prop where
  depth : ∀ n ∈ depthFlags, ∀ v ∈ valueOf? n a, v = flag f.isExtended
  chroma : ∀ v ∈ valueOf? "cmode" a, v = flag f.isFullChroma
  planes : valueOf? "output" a = some (quoted "YV24") → f.isFullChroma = true

/-- A call can stand where samples have format `f`. The arguments of the functions in `free` are not
looked at. -/
structure Suits (free : List String) (f : SampleFormat) (c : Call) : Prop where
  conversion : ∀ x ∈ c.change?, x.1 = f
  eight : c.function ∈ eightBitFunctions → f.isExtended = false
  sixteen : c.function ∈ sixteenBitFunctions → f.isExtended = true
  arguments : c.function ∉ free → ∀ a ∈ c.arguments, Agrees f a
  planes : c.function = "Dither_convert_rgb_to_yuv" → f.isFullChroma = true →
    c.gives "output" (quoted "YV24") = true

/-- Lines replay from one format to another. -/
inductive Replays (free : List String) : SampleFormat → List Line → SampleFormat → Prop where
  | done (f : SampleFormat) : Replays free f [] f
  | dependency (d : Dependency) {f g : SampleFormat} {rest : List Line} :
    Replays free f rest g → Replays free f (.dependency d :: rest) g
  | statement {l : Line} {c : Call} {f g : SampleFormat} {rest : List Line} :
    l.call? = some c → Suits free f c → Replays free (c.behind f) rest g →
      Replays free f (l :: rest) g

namespace Replays

variable {free : List String} {f g h : SampleFormat} {a b : List Line}

theorem append (ha : Replays free f a g) (hb : Replays free g b h) :
    Replays free f (a ++ b) h := by
  induction ha with
  | done => exact hb
  | dependency d _ ih => exact .dependency d (ih hb)
  | statement hc hs _ ih => exact .statement hc hs (ih hb)

theorem dependencies (ds : List Dependency) (ha : Replays free f a g) :
    Replays free f (ds.map .dependency ++ a) g := by
  induction ds with
  | nil => exact ha
  | cons d ds ih => exact .dependency d ih

/-- Dependencies have no part in a replay. -/
theorem statements (ha : Replays free f a g) :
    Replays free f (a.filter (!·.isDependency)) g := by
  induction ha with
  | done => exact .done _
  | dependency d _ ih => exact ih
  | @statement l c _ _ rest hc hs _ ih =>
    have hl : (!l.isDependency) = true := by
      cases l with
      | dependency d => cases hc
      | _ => rfl
    rw [List.filter_cons, if_pos hl]
    exact .statement hc hs ih

/-- A script in order replays as its lines did. -/
theorem tidy (ha : Replays free f a g) : Replays free f (Script.tidy ⟨a⟩).lines g :=
  ha.statements.dependencies _

/-- A single call that leaves the format alone. -/
theorem single {l : Line} {c : Call} (hl : l.call? = some c) (hs : Suits free f c)
    (hc : c.change? = none) : Replays free f [l] f := by
  refine .statement hl hs ?_
  rw [Call.behind, hc]
  exact .done f

end Replays

/-! ## Arguments -/

theorem valueOf?_eq_none {n a : String} (h : ¬ keyText n <+: a.toList) :
    valueOf? n a = none := by
  rw [valueOf?, Text.dropLead?, if_neg (by rwa [List.isPrefixOf_iff_prefix])]
  rfl

/-- An argument that can stand where samples have format `f` and asks for no other. -/
structure Fits (f : SampleFormat) (a : String) : Prop where
  whole : Script.isArgument a.toList = true
  agrees : Agrees f a
  keeps : ∀ n ∈ ["csp", "fCsp"], valueOf? n a = none

/-- An argument that says nothing about the format. -/
structure Plain (a : String) : Prop where
  whole : Script.isArgument a.toList = true
  silent : ∀ n ∈ formatParameters, valueOf? n a = none

theorem Plain.fits {a : String} (h : Plain a) (f : SampleFormat) : Fits f a where
  whole := h.whole
  agrees := by
    refine ⟨fun n hn v hv => ?_, fun v hv => ?_, fun hv => ?_⟩
    · rw [h.silent n (List.mem_append_left _ hn)] at hv
      cases hv
    · rw [h.silent "cmode" (by decide)] at hv
      cases hv
    · rw [h.silent "output" (by decide)] at hv
      cases hv
  keeps n hn := by
    have hsub : ∀ n ∈ ["csp", "fCsp"], n ∈ formatParameters := by decide
    exact h.silent n (hsub n hn)

instance (a : String) : Decidable (Plain a) :=
  decidable_of_iff (Script.isArgument a.toList = true ∧ ∀ n ∈ formatParameters, valueOf? n a = none)
    ⟨fun h => ⟨h.1, h.2⟩, fun h => ⟨h.1, h.2⟩⟩

instance (f : SampleFormat) (a : String) : Decidable (Agrees f a) :=
  decidable_of_iff ((∀ n ∈ depthFlags, ∀ v ∈ valueOf? n a, v = flag f.isExtended) ∧
    (∀ v ∈ valueOf? "cmode" a, v = flag f.isFullChroma) ∧
    (valueOf? "output" a = some (quoted "YV24") → f.isFullChroma = true))
    ⟨fun h => ⟨h.1, h.2.1, h.2.2⟩, fun h => ⟨h.1, h.2, h.3⟩⟩

instance (f : SampleFormat) (a : String) : Decidable (Fits f a) :=
  decidable_of_iff (Script.isArgument a.toList = true ∧ Agrees f a ∧
    ∀ n ∈ ["csp", "fCsp"], valueOf? n a = none)
    ⟨fun h => ⟨h.1, h.2.1, h.2.2⟩, fun h => ⟨h.1, h.2, h.3⟩⟩

instance (free : List String) (f : SampleFormat) (c : Call) : Decidable (Suits free f c) :=
  decidable_of_iff ((∀ x ∈ c.change?, x.1 = f) ∧
    (c.function ∈ eightBitFunctions → f.isExtended = false) ∧
    (c.function ∈ sixteenBitFunctions → f.isExtended = true) ∧
    (c.function ∉ free → ∀ a ∈ c.arguments, Agrees f a) ∧
    (c.function = "Dither_convert_rgb_to_yuv" → f.isFullChroma = true →
      c.gives "output" (quoted "YV24") = true))
    ⟨fun h => ⟨h.1, h.2.1, h.2.2.1, h.2.2.2.1, h.2.2.2.2⟩, fun h => ⟨h.1, h.2, h.3, h.4, h.5⟩⟩

/-- A call that suits with all its arguments suits all the more without some. -/
theorem Suits.loosen {f : SampleFormat} {c : Call} (h : Suits [] f c) (free : List String) :
    Suits free f c :=
  { h with arguments := fun _ => h.arguments List.not_mem_nil }

/-- Is it a digit or the point of a decimal? -/
def isNumeric (c : Char) : Bool := Numeral.isDigit c || c == '.'

theorem isBlank_of_isNumeric {c : Char} (h : isNumeric c = true) : Text.isBlank c = false := by
  have hn : c.toNat = 46 ∨ 48 ≤ c.toNat ∧ c.toNat ≤ 57 := by
    simp only [isNumeric, Numeral.isDigit, Bool.or_eq_true, Bool.and_eq_true, decide_eq_true_eq,
      beq_iff_eq] at h
    rcases h with ⟨h1, h2⟩ | rfl
    · exact .inr ⟨h1, h2⟩
    · exact .inl rfl
  simp only [Text.isBlank, Bool.or_eq_false_iff, Bool.and_eq_false_imp, decide_eq_true_eq,
    decide_eq_false_iff_not, beq_eq_false_iff_ne]
  omega

/-- Can a number stand behind this text, so that both are a plain argument? -/
def opens (lead : String) : Bool :=
  Script.quotedAfter false lead.toList == some false &&
    lead.toList.head?.all (!Text.isBlank ·) &&
    formatParameters.all fun n => !(keyText n).isPrefixOf lead.toList

/-- A number behind such a text makes a plain argument. -/
theorem plain_of_opens {lead m : String} (h : opens lead = true) (hne : m.toList ≠ [])
    (hm : ∀ c ∈ m.toList, isNumeric c = true) : Plain (lead ++ m) := by
  simp only [opens, Bool.and_eq_true, beq_iff_eq, List.all_eq_true, Bool.not_eq_true',
    ← Bool.not_eq_true, List.isPrefixOf_iff_prefix] at h
  obtain ⟨⟨hquotes, hhead⟩, hkeys⟩ := h
  constructor
  · have hplain : ∀ c ∈ m.toList, c ≠ ',' ∧ c ≠ '"' := by
      intro c hc
      refine ⟨?_, ?_⟩ <;> rintro rfl <;> exact absurd (hm _ hc) (by decide)
    rw [String.toList_append, Script.isArgument, Script.quotedAfter_append, hquotes]
    simp only [Option.bind_some]
    rw [Script.quotedAfter_plain hplain, beq_self_eq_true, Bool.true_and, Script.isEdged,
      List.head?_append, List.getLast?_append, List.head?_eq_some_head hne,
      List.getLast?_eq_some_getLast hne, Bool.and_eq_true]
    refine ⟨?_, ?_⟩
    · cases hl : lead.toList.head? with
      | none => simp [isBlank_of_isNumeric (hm _ (List.head_mem hne))]
      | some c => simpa [hl] using hhead
    · simp [isBlank_of_isNumeric (hm _ (List.getLast_mem hne))]
  · intro n hn
    refine valueOf?_eq_none fun hkey => ?_
    obtain ⟨c, r, hcr⟩ := List.exists_cons_of_ne_nil hne
    have hc : c ∉ keyText n := by
      intro hmem
      have hkeys : ∀ n ∈ formatParameters, (keyText n).any isNumeric = false := by decide
      have hc : isNumeric c = true := hm c (by rw [hcr]; exact List.mem_cons_self)
      exact List.any_eq_false.1 (hkeys n hn) c hmem hc
    rw [String.toList_append, hcr] at hkey
    -- the parameter ends within the lead, or the number begins within the parameter
    rcases List.prefix_or_prefix_of_prefix hkey
      (show lead.toList ++ [c] <+: lead.toList ++ c :: r from ⟨r, by simp⟩) with hk | hk
    · rcases List.prefix_concat_iff.1 hk with hk | hk
      · exact hc (hk ▸ List.mem_append_right _ List.mem_cons_self)
      · exact hkeys n hn hk
    · exact hc (hk.subset (List.mem_append_right _ List.mem_cons_self))

/-- Do these texts put what stands between them into quotes? -/
def encloses (lead tail : String) : Bool :=
  Script.quotedAfter false lead.toList == some true && lead.toList.head? == some '"' &&
    Script.quotedAfter true tail.toList == some false && tail.toList.getLast? == some '"'

theorem plain_of_encloses {lead m tail : String} (h : encloses lead tail = true)
    (hm : '"' ∉ m.toList) : Plain (lead ++ m ++ tail) := by
  simp only [encloses, Bool.and_eq_true, beq_iff_eq] at h
  obtain ⟨⟨⟨hlead, hhead⟩, htail⟩, hlast⟩ := h
  constructor
  · rw [String.toList_append, String.toList_append, Script.isArgument, Script.quotedAfter_append,
      Script.quotedAfter_append, hlead]
    simp only [Option.bind_some]
    rw [Script.quotedAfter_quoted hm]
    simp only [Option.bind_some]
    rw [htail, beq_self_eq_true, Bool.true_and, Script.isEdged, List.append_assoc,
      List.head?_append, hhead, ← List.append_assoc, List.getLast?_append, hlast]
    rfl
  · intro n hn
    refine valueOf?_eq_none fun hkey => ?_
    have hquote : ∀ n ∈ formatParameters, (keyText n).head? ≠ some '"' := by decide
    refine hquote n hn ?_
    rw [String.toList_append, String.toList_append, List.append_assoc] at hkey
    obtain ⟨r, hr⟩ := hkey
    obtain ⟨c, k, hck⟩ := List.exists_cons_of_ne_nil (show keyText n ≠ [] by simp [keyText])
    have := congrArg List.head? hr
    rw [hck, List.cons_append, List.head?_cons, List.head?_append, hhead] at this
    rw [hck]
    exact this

/-! ## Calls -/

/-- The functions with a call that converts samples. -/
def convertingFunctions : List String :=
  ["Dither_convert_8_to_16", "DitherPost", "Dither_resize16nr", "SuperRes", "SuperResXBR"]

theorem Call.gives_eq_false {c : Call} {n : String} (h : ∀ a ∈ c.arguments, valueOf? n a = none)
    (v : String) : c.gives n v = false := by
  rw [Call.gives, List.any_eq_false]
  intro a ha
  rw [h a ha]
  exact Bool.noConfusion

theorem Call.change?_of_function {c : Call} (h : c.function ∉ convertingFunctions) :
    c.change? = none := by
  simp only [convertingFunctions, List.mem_cons, List.not_mem_nil, or_false, not_or] at h
  simp [Call.change?, h]

/-- A function that can be called where samples have format `f`, and whose calls convert no samples
unless an argument says so. -/
def Allows (f : SampleFormat) (function : String) : Prop :=
  '(' ∉ function.toList ∧
    function ∉ ["Dither_convert_8_to_16", "DitherPost", "Dither_convert_rgb_to_yuv"] ∧
    (function ∈ eightBitFunctions → f.isExtended = false) ∧
    (function ∈ sixteenBitFunctions → f.isExtended = true)

instance (f : SampleFormat) (function : String) : Decidable (Allows f function) :=
  inferInstanceAs (Decidable (_ ∧ _ ∧ _ ∧ _))

/-- Most functions work on samples of any format. -/
theorem allows_of_not_mem {function : String} (h : '(' ∉ function.toList ∧ function ∉
    ["Dither_convert_8_to_16", "DitherPost", "Dither_convert_rgb_to_yuv"] ++ eightBitFunctions ++
      sixteenBitFunctions) (f : SampleFormat) : Allows f function := by
  simp only [List.mem_append, not_or] at h
  exact ⟨h.1, h.2.1.1, fun h8 => absurd h8 h.2.1.2, fun h16 => absurd h16 h.2.2⟩

section

variable {free : List String} {f : SampleFormat} {function : String} {as : List String}

theorem Allows.change? (h : Allows f function) (has : ∀ a ∈ as, Fits f a) :
    (⟨function, as⟩ : Call).change? = none := by
  have hgives : ∀ n ∈ ["csp", "fCsp"], ∀ v, (⟨function, as⟩ : Call).gives n v = false :=
    fun n hn v => Call.gives_eq_false (fun a ha => (has a ha).keeps n hn) v
  obtain ⟨-, h, -⟩ := h
  simp only [List.mem_cons, List.not_mem_nil, or_false, not_or] at h
  simp [Call.change?, h, hgives]

theorem Allows.suits (h : Allows f function) {c : Call} (hc : c.function = function)
    (hconversion : ∀ x ∈ c.change?, x.1 = f)
    (harguments : function ∉ free → ∀ a ∈ c.arguments, Agrees f a) : Suits free f c where
  conversion := hconversion
  eight := hc ▸ h.2.2.1
  sixteen := hc ▸ h.2.2.2
  arguments := hc ▸ harguments
  planes hyuv := by
    rw [hc] at hyuv
    exact absurd (hyuv ▸ h.2.1) (by decide)

/-- A call with fitting arguments leaves the format alone. -/
theorem replays_call {l : Line} (hl : l.call? = readCall? (call function as).toList)
    (h : Allows f function) (has : ∀ a ∈ as, Fits f a) : Replays free f [l] f := by
  have hread := readCall?_call h.1 fun a ha => (has a ha).whole
  have hchange := h.change? has
  refine .single (hl.trans hread) (h.suits rfl ?_ fun _ a ha => (has a ha).agrees) hchange
  rw [hchange]
  intro x hx
  cases hx

theorem call?_term {text : String} (h : text = call function as) :
    (Line.term text).call? = readCall? (call function as).toList := by
  rw [← h]
  rfl

/-- A call that converts samples. -/
theorem replays_change {x : SampleFormat × SampleFormat} (hfunction : '(' ∉ function.toList)
    (has : ∀ a ∈ as, Script.isArgument a.toList = true)
    (hchange : (⟨function, as⟩ : Call).change? = some x) (hsuits : Suits free x.1 ⟨function, as⟩) :
    Replays free x.1 [.term (call function as)] x.2 := by
  refine .statement (readCall?_call hfunction has) hsuits ?_
  rw [Call.behind, hchange]
  exact .done x.2

/-- A call that is told the name of a file, whatever that name is. -/
theorem replays_naming (hname : function ∈ namingFunctions) (h : Allows f function)
    (has : function ∈ free ∨ ∀ a ∈ as, Plain a) :
    Replays free f [.term (call function as)] f := by
  rcases has with hfree | has
  · obtain ⟨bs, hread⟩ := readCall?_function h.1 as
    have hchange : (⟨function, bs⟩ : Call).change? = none := by
      have hsub : ∀ n ∈ namingFunctions, n ∉ convertingFunctions := by decide
      exact Call.change?_of_function (hsub function hname)
    refine .single hread (h.suits rfl ?_ fun hn => absurd hfree hn) hchange
    rw [hchange]
    intro x hx
    cases hx
  · exact replays_call rfl h fun a ha => (has a ha).fits f

end

end Restoration
