import Restoration.Encoding

/-!
# Work step by step

Work at a desk, and an encoding on a bench, is a function from a state to an outcome and the state
behind it. Run one behind the other, the second part starts where the first left off, or not at all:

    (x >>= f) s = (r, t)  →  x s = (error e, t)  or  x s = (ok a, u) and f a u = (r, t)
-/

namespace Restoration

variable {σ ε α β : Type}

theorem bind_run (x : ExceptT ε (StateM σ) α) (f : α → ExceptT ε (StateM σ) β) (s : σ) :
    (x >>= f) s = match x s with
      | (.ok a, t) => f a t
      | (.error e, t) => (.error e, t) := by
  change ExceptT.bindCont f (x s).1 (x s).2 = _
  rcases x s with ⟨_ | _, _⟩ <;> rfl

/-- **What happened in a sequence.** -/
theorem bind_cases {x : ExceptT ε (StateM σ) α} {f : α → ExceptT ε (StateM σ) β} {s t : σ}
    {r : Except ε β} (h : (x >>= f) s = (r, t)) :
    (∃ e, x s = (.error e, t) ∧ r = .error e) ∨ ∃ a u, x s = (.ok a, u) ∧ f a u = (r, t) := by
  rw [bind_run] at h
  rcases hx : x s with ⟨e | a, u⟩
  · rw [hx] at h
    cases h
    exact .inl ⟨e, rfl, rfl⟩
  · rw [hx] at h
    exact .inr ⟨a, u, rfl, h⟩

theorem bind_ok {x : ExceptT ε (StateM σ) α} {f : α → ExceptT ε (StateM σ) β} {s t : σ} {b : β}
    (h : (x >>= f) s = (.ok b, t)) : ∃ a u, x s = (.ok a, u) ∧ f a u = (.ok b, t) := by
  rcases bind_cases h with ⟨e, -, he⟩ | h
  · cases he
  · exact h

/-- What a last step makes of the outcome. -/
theorem bind_pure_cases {x : ExceptT ε (StateM σ) α} {g : α → β} {s t : σ} {r : Except ε β}
    (h : (x >>= fun a => pure (g a)) s = (r, t)) : ∃ r₀, x s = (r₀, t) ∧ r = r₀.map g := by
  rcases bind_cases h with ⟨e, hx, rfl⟩ | ⟨a, u, hx, hg⟩
  · exact ⟨.error e, hx, rfl⟩
  · cases hg
    exact ⟨.ok a, hx, rfl⟩

theorem bind_ite {c : Prop} [Decidable c] (x y : ExceptT ε (StateM σ) α)
    (f : α → ExceptT ε (StateM σ) β) :
    (if c then x >>= f else y >>= f) = (if c then x else y) >>= f := by
  split <;> rfl

theorem get_run (s : σ) : (get : ExceptT ε (StateM σ) σ) s = (.ok s, s) := rfl

/-! ## What every run keeps to -/

/-- A relation between earlier and later states. -/
structure Steady (R : σ → σ → Prop) : Prop where
  refl : ∀ s, R s s
  trans : ∀ {s t u}, R s t → R t u → R s u

/-- However it ends, the work leads to a state that is so related to the one at its start. -/
def Always (R : σ → σ → Prop) (x : ExceptT ε (StateM σ) α) : Prop := ∀ s, R s (x s).2

namespace Always

variable {R : σ → σ → Prop} {x : ExceptT ε (StateM σ) α} {f : α → ExceptT ε (StateM σ) β}

theorem apply (h : Always R x) {s t : σ} {r : Except ε α} (hx : x s = (r, t)) : R s t := by
  have := h s
  rwa [hx] at this

theorem of_eq (h : ∀ {s t r}, x s = (r, t) → R s t) : Always R x := fun _ => h rfl

theorem pure (hR : Steady R) (a : α) : Always R (Pure.pure a : ExceptT ε (StateM σ) α) :=
  fun s => hR.refl s

theorem throw (hR : Steady R) (e : ε) : Always R (throw e : ExceptT ε (StateM σ) α) :=
  fun s => hR.refl s

theorem bind (hR : Steady R) (hx : Always R x) (hf : ∀ a, Always R (f a)) :
    Always R (x >>= f) := by
  refine .of_eq fun {s t r} h => ?_
  rcases bind_cases h with ⟨e, hx', -⟩ | ⟨a, u, hx', hf'⟩
  · exact hx.apply hx'
  · exact hR.trans (hx.apply hx') ((hf a).apply hf')

theorem ite {c : Prop} [Decidable c] {y : ExceptT ε (StateM σ) α} (hx : Always R x)
    (hy : Always R y) : Always R (if c then x else y) := by
  split
  · exact hx
  · exact hy

theorem get (hR : Steady R) : Always R (get : ExceptT ε (StateM σ) σ) := hR.refl

end Always

/-! ## Two ways to end -/

/-- From every state as in `pre`, the work ends with a result as in `post` or with a fault as in
`exit`. -/
structure Ends (pre : σ → Prop) (x : ExceptT ε (StateM σ) α) (post : α → σ → Prop)
    (exit : ε → σ → Prop) : Prop where
  ok : ∀ {s t : σ} {a : α}, pre s → x s = (.ok a, t) → post a t
  fault : ∀ {s t : σ} {e : ε}, pre s → x s = (.error e, t) → exit e t

namespace Ends

variable {pre pre' : σ → Prop} {x y : ExceptT ε (StateM σ) α}
  {f : α → ExceptT ε (StateM σ) β} {Q post post' : α → σ → Prop} {last : β → σ → Prop}
  {exit exit' : ε → σ → Prop}

theorem pure {a : α} (h : ∀ s, pre s → post a s) :
    Ends pre (Pure.pure a : ExceptT ε (StateM σ) α) post exit where
  ok hs hx := by
    cases hx
    exact h _ hs
  fault _ hx := by cases hx

theorem throw {e : ε} (h : ∀ s, pre s → exit e s) :
    Ends pre (throw e : ExceptT ε (StateM σ) α) post exit where
  ok _ hx := by cases hx
  fault hs hx := by
    cases hx
    exact h _ hs

theorem bind (hx : Ends pre x Q exit) (hf : ∀ a, Ends (Q a) (f a) last exit) :
    Ends pre (x >>= f) last exit where
  ok hs h := by
    obtain ⟨a, u, hstep, hrest⟩ := bind_ok h
    exact (hf a).ok (hx.ok hs hstep) hrest
  fault hs h := by
    rcases bind_cases h with ⟨e, hstep, he⟩ | ⟨a, u, hstep, hrest⟩
    · cases he
      exact hx.fault hs hstep
    · exact (hf a).fault (hx.ok hs hstep) hrest

theorem ite {c : Prop} [Decidable c] (hx : c → Ends pre x post exit)
    (hy : ¬ c → Ends pre y post exit) : Ends pre (if c then x else y) post exit := by
  split
  · exact hx ‹_›
  · exact hy ‹_›

/-- It is enough to look at results where faults may be any. -/
theorem of_ok (h : ∀ {s t : σ} {a : α}, pre s → x s = (.ok a, t) → post a t) :
    Ends pre x post fun _ _ => True := ⟨h, fun _ _ => trivial⟩

theorem mono (h : Ends pre x post exit) (hpre : ∀ s, pre' s → pre s)
    (hpost : ∀ a s, post a s → post' a s) (hexit : ∀ e s, exit e s → exit' e s) :
    Ends pre' x post' exit' where
  ok hs hx := hpost _ _ (h.ok (hpre _ hs) hx)
  fault hs hx := hexit _ _ (h.fault (hpre _ hs) hx)

end Ends

/-- The only faults of the work are some of this kind. -/
def Faults (P : ε → Prop) (x : ExceptT ε (StateM σ) α) : Prop :=
  ∀ s e t, x s = (.error e, t) → P e

namespace Faults

variable {P : ε → Prop} {x y : ExceptT ε (StateM σ) α} {f : α → ExceptT ε (StateM σ) β}

theorem pure (a : α) : Faults P (Pure.pure a : ExceptT ε (StateM σ) α) := by
  intro s e t h
  cases h

theorem throw {e : ε} (he : P e) : Faults P (throw e : ExceptT ε (StateM σ) α) := by
  intro s e' t h
  cases h
  exact he

theorem bind (hx : Faults P x) (hf : ∀ a, Faults P (f a)) : Faults P (x >>= f) := by
  intro s e t h
  rcases bind_cases h with ⟨e', hstep, he⟩ | ⟨a, u, -, hrest⟩
  · cases he
    exact hx s e t hstep
  · exact hf a u e t hrest

theorem ite {c : Prop} [Decidable c] (hx : Faults P x) (hy : Faults P y) :
    Faults P (if c then x else y) := by
  split
  · exact hx
  · exact hy

/-- Work that cannot fail has no faults. -/
theorem of_ok (h : ∀ s, ∃ a t, x s = (.ok a, t)) : Faults P x := by
  intro s e t hx
  obtain ⟨a, u, ha⟩ := h s
  rw [ha] at hx
  cases hx

theorem get : Faults P (get : ExceptT ε (StateM σ) σ) := of_ok fun s => ⟨s, s, rfl⟩

end Faults

/-! ## Work at a desk -/

/-- What the tools keep is so related; the files and the flag may be any. -/
def OnTools {τ : Type} (Q : τ → τ → Prop) (d d' : Desk τ) : Prop := Q d.tools d'.tools

theorem Steady.onTools {τ : Type} {Q : τ → τ → Prop} (hQ : Steady Q) : Steady (OnTools Q) where
  refl d := hQ.refl d.tools
  trans h h' := hQ.trans h h'

/-- The desk after a look at the flag, which keeps what it found. -/
def Desk.looked {τ : Type} (d : Desk τ) : Desk τ :=
  { d with cancelled := d.isRaised, looks := d.looks + 1 }

namespace Work

variable {τ ε' : Type} {d d' : Desk τ}

theorem look_run (f : FileTree → Except FileFault α) (fault : FileFault → ε) (d : Desk τ) :
    look f fault d = match f d.files with
      | .ok a => (.ok a, d)
      | .error cause => (.error (fault cause), d) := by
  change (match f d.files with
    | .ok a => Pure.pure a
    | .error cause => throw (fault cause) : Work τ ε α) d = _
  cases f d.files <;> rfl

theorem look_ok {f : FileTree → Except FileFault α} {fault : FileFault → ε} {a : α}
    (h : look f fault d = (.ok a, d')) : f d.files = .ok a ∧ d = d' := by
  rw [look_run] at h
  cases hf : f d.files <;> rw [hf] at h <;> cases h
  exact ⟨rfl, rfl⟩

theorem look_fault {f : FileTree → Except FileFault α} {fault : FileFault → ε} {e : ε}
    (h : look f fault d = (.error e, d')) : ∃ cause, e = fault cause := by
  rw [look_run] at h
  cases hf : f d.files <;> rw [hf] at h <;> cases h
  exact ⟨_, rfl⟩

theorem look_error {f : FileTree → Except FileFault α} {fault : FileFault → ε} {e : ε}
    (h : look f fault d = (.error e, d')) : d = d' := by
  rw [look_run] at h
  cases hf : f d.files <;> rw [hf] at h <;> cases h
  rfl

theorem change_run (f : FileTree → Except FileFault FileTree) (fault : FileFault → ε)
    (d : Desk τ) : change f fault d = match f d.files with
      | .ok files => (.ok (), { d with files := files })
      | .error cause => (.error (fault cause), d) := by
  change (match f d.files with
    | .ok files => modify fun d => { d with files := files }
    | .error cause => throw (fault cause) : Work τ ε Unit) d = _
  cases f d.files <;> rfl

theorem change_ok {f : FileTree → Except FileFault FileTree} {fault : FileFault → ε}
    (h : change f fault d = (.ok (), d')) : ∃ t, f d.files = .ok t ∧ d' = { d with files := t } := by
  rw [change_run] at h
  cases hf : f d.files <;> rw [hf] at h <;> cases h
  exact ⟨_, rfl, rfl⟩

theorem change_fault {f : FileTree → Except FileFault FileTree} {fault : FileFault → ε} {e : ε}
    (h : change f fault d = (.error e, d')) : ∃ cause, e = fault cause := by
  rw [change_run] at h
  cases hf : f d.files <;> rw [hf] at h <;> cases h
  exact ⟨_, rfl⟩

theorem change_error {f : FileTree → Except FileFault FileTree} {fault : FileFault → ε} {e : ε}
    (h : change f fault d = (.error e, d')) : d = d' := by
  rw [change_run] at h
  cases hf : f d.files <;> rw [hf] at h <;> cases h
  rfl

theorem isCancelled_run (d : Desk τ) :
    (isCancelled : Work τ ε Bool) d = (.ok d.isRaised, d.looked) := rfl

theorem outcome_run (w : Work τ ε α) (d : Desk τ) :
    (w.outcome : Work τ ε' (Except ε α)) d = (.ok (w d).1, (w d).2) := rfl

theorem outcome_ok {w : Work τ ε α} {r : Except ε α}
    (h : (w.outcome : Work τ ε' (Except ε α)) d = (.ok r, d')) : w d = (r, d') := by
  rw [outcome_run] at h
  cases h
  rfl

theorem named_run (fault : ε → ε') (w : Work τ ε α) (d : Desk τ) :
    w.named fault d = ((w d).1.mapError fault, (w d).2) := by
  unfold named
  rcases w d with ⟨_ | _, _⟩ <;> rfl

theorem named_ok {fault : ε → ε'} {w : Work τ ε α} {a : α} (h : w.named fault d = (.ok a, d')) :
    w d = (.ok a, d') := by
  rw [named_run] at h
  rcases hw : w d with ⟨_ | _, _⟩ <;> rw [hw] at h <;> cases h
  rfl

variable {R : Desk τ → Desk τ → Prop}

theorem always_look (hR : Steady R) (f : FileTree → Except FileFault α) (fault : FileFault → ε) :
    Always R (look f fault : Work τ ε α) := by
  intro d
  rw [look_run]
  cases f d.files <;> exact hR.refl d

theorem always_change (hR : Steady R) {f : FileTree → Except FileFault FileTree}
    (fault : FileFault → ε) (h : ∀ d t, f d.files = .ok t → R d { d with files := t }) :
    Always R (change f fault : Work τ ε Unit) := by
  intro d
  rw [change_run]
  cases hf : f d.files with
  | error cause => exact hR.refl d
  | ok t => exact h d t hf

theorem always_outcome {w : Work τ ε α} (h : Always R w) :
    Always R (w.outcome : Work τ ε' (Except ε α)) := h

theorem always_named {w : Work τ ε α} (h : Always R w) (fault : ε → ε') :
    Always R (w.named fault) := by
  intro d
  rw [named_run]
  exact h d

variable {P : ε → Prop} {P' : ε' → Prop}

theorem faults_look (f : FileTree → Except FileFault α) {fault : FileFault → ε}
    (hP : ∀ cause, P (fault cause)) : Faults P (look f fault : Work τ ε α) := by
  intro d e d' h
  obtain ⟨cause, rfl⟩ := look_fault h
  exact hP cause

theorem faults_change (f : FileTree → Except FileFault FileTree) {fault : FileFault → ε}
    (hP : ∀ cause, P (fault cause)) : Faults P (change f fault : Work τ ε Unit) := by
  intro d e d' h
  obtain ⟨cause, rfl⟩ := change_fault h
  exact hP cause

theorem faults_outcome (w : Work τ ε α) : Faults P' (w.outcome : Work τ ε' (Except ε α)) :=
  .of_ok fun d => ⟨(w d).1, (w d).2, outcome_run w d⟩

theorem faults_named (w : Work τ ε α) {fault : ε → ε'} (hP : ∀ e, P' (fault e)) :
    Faults P' (w.named fault) := by
  intro d e d' h
  rw [named_run] at h
  cases hr : (w d).1 with
  | ok a =>
    rw [hr] at h
    cases h
  | error e' =>
    rw [hr] at h
    cases h
    exact hP e'

theorem faults_isCancelled : Faults P (isCancelled : Work τ ε Bool) :=
  .of_ok fun d => ⟨d.isRaised, d.looked, isCancelled_run d⟩

end Work

end Restoration
