import Mathlib.Data.Nat.Find
import Mathlib.Logic.Function.Iterate
import Restoration.Removal

/-!
# Attempts at a removal

What a file system answers to the attempts decides how many of them are made and how they end. The
first answer by which the file is gone is the last one that is asked for, and a fault is told only if
all attempts that are allowed have failed:

    Tries answers (max 1 n) calls outcome   →   remove (inTurn answers) n 0 = (outcome, calls)
-/

namespace Restoration.Removal

variable {ε σ : Type}

/-! ## Calls in turn -/

section calls

variable (step : σ → Except ε Unit × σ) (s : σ)

/-- The state after so many calls. -/
def after (calls : Nat) : σ := (fun s => (step s).2)^[calls] s

/-- The answer to a call; the first one has the number zero. -/
def answer (i : Nat) : Except ε Unit := (step (after step s i)).1

end calls

/-- A file system that gives these answers in turn. Its state is the number of calls so far. -/
def inTurn (answers : Nat → Except ε Unit) (calls : Nat) : Except ε Unit × Nat :=
  (answers calls, calls + 1)

theorem after_inTurn (answers : Nat → Except ε Unit) (calls : Nat) :
    after (inTurn answers) 0 calls = calls := by
  induction calls with
  | zero => rfl
  | succ n ih =>
    rw [after, Function.iterate_succ_apply', ← after, ih]
    rfl

theorem answer_inTurn (answers : Nat → Except ε Unit) : answer (inTurn answers) 0 = answers := by
  funext i
  rw [answer, after_inTurn]
  rfl

/-! ## Answers -/

variable [Reason ε]

/-- Is the file gone, by this answer? -/
def Settles : Except ε Unit → Prop
  | .ok () => True
  | .error reason => Reason.saysGone reason = true

theorem settles_or_fails (answer : Except ε Unit) :
    Settles answer ∨ ∃ reason, answer = .error reason ∧ ¬ Reason.saysGone reason = true := by
  cases answer with
  | ok => exact .inl trivial
  | error reason =>
    by_cases hgone : Reason.saysGone reason = true
    · exact .inl hgone
    · exact .inr ⟨reason, rfl, hgone⟩

/-- So many calls are made, and with this outcome, where `most` are allowed and the file system gives
these answers in turn. -/
structure Tries (answers : Nat → Except ε Unit) (most calls : Nat) (outcome : Except ε Unit) :
    Prop where
  within : 1 ≤ calls ∧ calls ≤ most
  /-- The first answer by which the file is gone is the last. -/
  settled : ∀ i < most, Settles (answers i) → (∀ k < i, ¬ Settles (answers k)) →
    calls = i + 1 ∧ outcome = .ok ()
  failed_iff : (∃ reason, outcome = .error reason) ↔ ∀ i < most, ¬ Settles (answers i)
  /-- What is told is the last of all failures. -/
  told : ∀ reason, outcome = .error reason → calls = most ∧ answers (most - 1) = .error reason

namespace Tries

variable {answers : Nat → Except ε Unit} {most calls calls' : Nat} {outcome outcome' : Except ε Unit}

/-- A first attempt after which the file is gone is the only one. -/
theorem first (h : Settles (answers 0)) (hmost : 1 ≤ most) : Tries answers most 1 (.ok ()) where
  within := ⟨Nat.le_refl 1, hmost⟩
  settled := by
    rintro (_ | i) - - hahead
    · exact ⟨rfl, rfl⟩
    · exact absurd h (hahead 0 (Nat.succ_pos i))
  failed_iff := by
    constructor
    · rintro ⟨reason, hreason⟩
      cases hreason
    · exact fun hnone => absurd h (hnone 0 hmost)
  told := by
    intro reason hreason
    cases hreason

/-- The failure of the only attempt is told. -/
theorem only {reason : ε} (h : answers 0 = .error reason)
    (hreason : ¬ Reason.saysGone reason = true) : Tries answers 1 1 (.error reason) := by
  have hfailed : ∀ i < 1, ¬ Settles (answers i) := by
    intro i hi
    obtain rfl : i = 0 := by omega
    rw [h]
    exact hreason
  constructor
  · exact ⟨Nat.le_refl 1, Nat.le_refl 1⟩
  · exact fun i hi hsettles => absurd hsettles (hfailed i hi)
  · exact ⟨fun _ => hfailed, fun _ => ⟨reason, rfl⟩⟩
  · intro other hother
    cases hother
    exact ⟨rfl, h⟩

/-- A first attempt that fails only puts the others off. -/
theorem later (h : ¬ Settles (answers 0))
    (hrest : Tries (fun i => answers (i + 1)) most calls outcome) :
    Tries answers (most + 1) (calls + 1) outcome := by
  have hwithin := hrest.within
  constructor
  · omega
  · rintro (_ | i) hi hsettles hahead
    · exact absurd hsettles h
    · obtain ⟨hcalls, hok⟩ := hrest.settled i (by omega) hsettles fun k hk => hahead (k + 1) (by omega)
      exact ⟨by rw [hcalls], hok⟩
  · rw [hrest.failed_iff]
    constructor
    · rintro hall (_ | i) hi
      · exact h
      · exact hall i (by omega)
    · exact fun hall i hi => hall (i + 1) (by omega)
  · intro reason hreason
    obtain ⟨hcalls, hlast⟩ := hrest.told reason hreason
    rw [Nat.sub_add_cancel (by omega)] at hlast
    exact ⟨by rw [hcalls], hlast⟩

/-- The answers leave no choice. -/
theorem unique (h : Tries answers most calls outcome) (h' : Tries answers most calls' outcome') :
    calls = calls' ∧ outcome = outcome' := by
  classical
  by_cases hsettles : ∃ i, i < most ∧ Settles (answers i)
  · obtain ⟨hlt, hfirst⟩ := Nat.find_spec hsettles
    have hahead : ∀ k < Nat.find hsettles, ¬ Settles (answers k) :=
      fun k hk hk' => Nat.find_min hsettles hk ⟨by omega, hk'⟩
    obtain ⟨hcalls, hok⟩ := h.settled _ hlt hfirst hahead
    obtain ⟨hcalls', hok'⟩ := h'.settled _ hlt hfirst hahead
    exact ⟨hcalls.trans hcalls'.symm, hok.trans hok'.symm⟩
  · have hnone : ∀ i < most, ¬ Settles (answers i) := fun i hi hi' => hsettles ⟨i, hi, hi'⟩
    obtain ⟨reason, hreason⟩ := h.failed_iff.2 hnone
    obtain ⟨reason', hreason'⟩ := h'.failed_iff.2 hnone
    obtain ⟨hcalls, hlast⟩ := h.told reason hreason
    obtain ⟨hcalls', hlast'⟩ := h'.told reason' hreason'
    rw [hreason, hreason', ← hlast, ← hlast']
    exact ⟨hcalls.trans hcalls'.symm, rfl⟩

end Tries

/-! ## The loop -/

section loop

variable (step : σ → Except ε Unit × σ) (s : σ)

theorem attempt_of_settles (h : Settles (step s).1) (further : Nat) :
    attempt step further s = (.ok (), (step s).2) := by
  rw [attempt.eq_def]
  rcases hstep : step s with ⟨reason | _, s'⟩
  · rw [hstep] at h
    exact if_pos h
  · rfl

section failure

variable {reason : ε} (h : (step s).1 = .error reason) (hreason : ¬ Reason.saysGone reason = true)

include h hreason

theorem attempt_zero : attempt step 0 s = (.error reason, (step s).2) := by
  rw [attempt.eq_def]
  rcases hstep : step s with ⟨answer, s'⟩
  rw [hstep] at h
  cases h
  exact if_neg hreason

theorem attempt_succ (further : Nat) :
    attempt step (further + 1) s = attempt step further (step s).2 := by
  rw [attempt.eq_def]
  rcases hstep : step s with ⟨answer, s'⟩
  rw [hstep] at h
  cases h
  exact if_neg hreason

end failure

/-- Each attempt is one call, and there is a further one only after a failure. -/
theorem tries_attempt (further : Nat) : ∃ calls outcome,
    Tries (answer step s) (further + 1) calls outcome ∧
      attempt step further s = (outcome, after step s calls) := by
  induction further generalizing s with
  | zero =>
    rcases settles_or_fails (step s).1 with hsettles | ⟨reason, hanswer, hreason⟩
    · exact ⟨1, .ok (), .first hsettles (by omega), attempt_of_settles step s hsettles 0⟩
    · exact ⟨1, .error reason, .only hanswer hreason, attempt_zero step s hanswer hreason⟩
  | succ n ih =>
    rcases settles_or_fails (step s).1 with hsettles | ⟨reason, hanswer, hreason⟩
    · exact ⟨1, .ok (), .first hsettles (by omega), attempt_of_settles step s hsettles (n + 1)⟩
    · obtain ⟨calls, outcome, htries, hrun⟩ := ih (step s).2
      refine ⟨calls + 1, outcome, .later ?_ htries, ?_⟩
      · rw [answer, after, Function.iterate_zero_apply, hanswer]
        exact hreason
      · rw [attempt_succ step s hanswer hreason, hrun]
        rfl

theorem tries_remove (attempts : Nat) : ∃ calls outcome,
    Tries (answer step s) (max 1 attempts) calls outcome ∧
      remove step attempts s = (outcome, after step s calls) := by
  have htries := tries_attempt step s (max 1 attempts - 1)
  rwa [Nat.sub_add_cancel (Nat.le_max_left 1 attempts)] at htries

end loop

/-- **A removal ends with the first answer by which the file is gone, or with the last failure.** The
answers alone decide how many calls are made. A file system that counts its calls has counted these,
and any other one is left as these calls leave it. -/
theorem removal_tries (answers : Nat → Except ε Unit) (attempts : Nat) :
    ∃ calls outcome, Tries answers (max 1 attempts) calls outcome ∧
      remove (inTurn answers) attempts 0 = (outcome, calls) ∧
      ∀ {σ : Type} (step : σ → Except ε Unit × σ) (s : σ), (∀ i, answer step s i = answers i) →
        remove step attempts s = (outcome, after step s calls) := by
  obtain ⟨calls, outcome, htries, hrun⟩ := tries_remove (inTurn answers) 0 attempts
  rw [answer_inTurn] at htries
  rw [after_inTurn] at hrun
  refine ⟨calls, outcome, htries, hrun, fun step s hanswers => ?_⟩
  obtain ⟨calls', outcome', htries', hrun'⟩ := tries_remove step s attempts
  rw [funext hanswers] at htries'
  obtain ⟨rfl, rfl⟩ := htries'.unique htries
  exact hrun'

/-- Two calls fail and the third one finds no file any more; a fourth is not made. -/
example : remove (inTurn fun i => .error (if i < 2 then FileFault.isADirectory else .notFound)) 5 0 =
    (.ok (), 3) := by decide

end Restoration.Removal
