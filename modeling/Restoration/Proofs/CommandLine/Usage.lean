import Restoration.CommandLine.Request
import Restoration.Proofs.FileTree.SameBut

/-!
# What options keep

A property of the record of all options that each option and each place keeps is kept by all arguments
together, in whatever order they come:

    form.Keeps P   →   P r   →   form.read r args = ok r'   →   P r'
-/

namespace Restoration.CommandLine

open FileTree

variable {ρ : Type} {P : ρ → Prop}

/-- The option keeps the property, whatever its value is. -/
def Setter.Keeps (P : ρ → Prop) : Setter ρ → Prop
  | .flag f => ∀ r, P r → P (f r)
  | .value f => ∀ v r r', P r → f v r = .ok r' → P r'

namespace Form

/-- All options and places keep the property. -/
structure Keeps (P : ρ → Prop) (form : Form ρ) : Prop where
  rules : ∀ rule ∈ form.rules, rule.setter.Keeps P
  take : ∀ w r r', P r → form.take w r = .ok r' → P r'

/-- What was read has the property, and the option that is pending keeps it. -/
structure Sound (P : ρ → Prop) (s : Reading ρ) : Prop where
  record : P s.record
  pending : ∀ name f value, s.pending = some (.option name f value) → Setter.Keeps P (.value f)

variable {form : Form ρ}

theorem keeps_take {r r' : ρ} {ws : List String} (hform : form.Keeps P) (hr : P r)
    (h : ws.foldlM (fun r w => form.take w r) r = .ok r') : P r' := by
  induction ws generalizing r with
  | nil =>
    cases h
    exact hr
  | cons w ws ih =>
    obtain ⟨r₁, hfirst, hrest⟩ := bind_eq_ok_iff.1 h
    exact ih (hform.take w r r₁ hr hfirst) hrest

namespace Sound

variable {s s' : Reading ρ}

theorem of_note {name : String} (hs : Sound P s) (h : s.note name = .ok s') : Sound P s' := by
  rw [Reading.note] at h
  split at h <;> cases h
  exact ⟨hs.record, hs.pending⟩

theorem of_settle (hform : form.Keeps P) (hs : Sound P s) (h : s.settle form = .ok s') :
    Sound P s' := by
  unfold Reading.settle at h
  split at h
  · cases h
    exact hs
  · cases h
  · rename_i name f value hpending
    obtain ⟨noted, hnoted, h⟩ := bind_eq_ok_iff.1 h
    obtain ⟨r, hr, h⟩ := bind_eq_ok_iff.1 h
    cases h
    exact ⟨hs.pending name f _ hpending value _ _ (hs.of_note hnoted).record hr, nofun⟩
  · rename_i ws hpending
    obtain ⟨r, hr, h⟩ := bind_eq_ok_iff.1 h
    cases h
    exact ⟨keeps_take hform hs.record hr, nofun⟩

theorem of_option {name : String} {attached : Option String} (hform : form.Keeps P) (hs : Sound P s)
    (h : form.option s name attached = .ok s') : Sound P s' := by
  unfold option at h
  split at h
  · split at h
    · split at h
      · cases h
      · obtain ⟨_, _, h⟩ := bind_eq_ok_iff.1 h
        split at h <;> cases h
    · cases h
  · rename_i rule hrule
    have hkeeps := hform.rules rule (List.mem_of_find?_eq_some hrule)
    split at h
    · cases h
    · rename_i f hf
      obtain ⟨settled, hsettled, h⟩ := bind_eq_ok_iff.1 h
      obtain ⟨noted, hnoted, h⟩ := bind_eq_ok_iff.1 h
      cases h
      have hsound := (hs.of_settle hform hsettled).of_note hnoted
      rw [hf] at hkeeps
      exact ⟨hkeeps _ hsound.record, hsound.pending⟩
    · rename_i f hf
      obtain ⟨settled, hsettled, h⟩ := bind_eq_ok_iff.1 h
      rw [hf] at hkeeps
      have hsound (value : Option String) :
          Sound P { settled with pending := some (.option name f value) } := by
        refine ⟨(hs.of_settle hform hsettled).record, ?_⟩
        rintro _ _ _ ⟨⟩
        exact hkeeps
      split at h
      · exact (hsound _).of_settle hform h
      · cases h
        exact hsound _

theorem of_letter {c : Char} (hform : form.Keeps P) (hs : Sound P s)
    (h : form.letter s c = .ok s') : Sound P s' := by
  unfold letter at h
  split at h
  · exact hs.of_option hform h
  · split at h
    · exact hs.of_option hform h
    · cases h

theorem of_word {w : String} (hform : form.Keeps P) (hs : Sound P s)
    (h : form.word s w = .ok s') : Sound P s' := by
  unfold word at h
  split at h
  · cases h
    exact ⟨hs.record, nofun⟩
  · obtain ⟨settled, hsettled, h⟩ := bind_eq_ok_iff.1 h
    cases h
    exact ⟨(hs.of_settle hform hsettled).record, nofun⟩
  · split at h
    · obtain ⟨settled, hsettled, h⟩ := bind_eq_ok_iff.1 h
      cases h
      exact ⟨(hs.of_settle hform hsettled).record, nofun⟩
    · cases h
  · cases h

theorem supply (hs : Sound P s) (value : String) : Sound P (s.supply value) := by
  unfold Reading.supply
  split
  · rename_i name f old hpending
    refine ⟨hs.record, ?_⟩
    rintro _ _ _ ⟨⟩
    exact hs.pending name f old hpending
  · exact hs

end Sound

/-- One argument after the other keeps the property. -/
theorem sound_readFrom {s s' : Reading ρ} {command : Option (String × List String)}
    {args : List String} (hform : form.Keeps P) (hs : Sound P s)
    (h : form.readFrom s args = .ok (s', command)) : Sound P s' := by
  induction args generalizing s with
  | nil =>
    cases h
    exact hs
  | cons a rest ih =>
    rw [readFrom] at h
    split at h
    · obtain ⟨t, ht, h⟩ := bind_eq_ok_iff.1 h
      exact ih (hs.of_word hform ht) h
    · split at h
      · cases h
        exact hs
      · split at h
        · exact ih (s := { s with wordsOnly := true }) ⟨hs.record, hs.pending⟩ h
        · obtain ⟨t, ht, h⟩ := bind_eq_ok_iff.1 h
          exact ih (hs.of_option hform ht) h
        · obtain ⟨t, ht, h⟩ := bind_eq_ok_iff.1 h
          exact ih (hs.of_letter hform ht) h
        · split at h
          · exact ih (hs.supply a) h
          · obtain ⟨t, ht, h⟩ := bind_eq_ok_iff.1 h
            exact ih (hs.of_word hform ht) h

/-- **Arguments keep what each option keeps.** -/
theorem keeps_read {r r' : ρ} {args : List String} (hform : form.Keeps P) (hr : P r)
    (h : form.read r args = .ok r') : P r' := by
  obtain ⟨⟨s, command⟩, hread, h⟩ := bind_eq_ok_iff.1 h
  obtain ⟨settled, hsettled, h⟩ := bind_eq_ok_iff.1 h
  have hstart : Sound P { record := r } := ⟨hr, fun _ _ _ h => nomatch h⟩
  have hsound := (sound_readFrom hform hstart hread).of_settle hform hsettled
  split at h <;> cases h
  exact hsound.record

end Form

end Restoration.CommandLine
