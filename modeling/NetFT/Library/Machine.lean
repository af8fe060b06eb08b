/-! Machines with a partial step function. A step is chosen by an action, which also resolves
the machine's nondeterminism, and emits a finite list of events. A run is a sequence of steps
together with the events it emitted, in order. Properties of runs are proved by
`Machine.Run.invariant`, with the events of the run as part of the invariant. -/

namespace NetFT.Library

structure Machine (σ α ε : Type) where
  step : σ → α → Option (σ × List ε)

namespace Machine

variable {σ α ε : Type} {M : Machine σ α ε}

/-- Perform the actions from left to right, failing on the first disabled one. -/
def exec (M : Machine σ α ε) : σ → List α → Option (σ × List ε)
  | s, [] => some (s, [])
  | s, a :: as =>
    match M.step s a with
    | none => none
    | some (s', l) =>
      match M.exec s' as with
      | none => none
      | some (s'', l') => some (s'', l ++ l')

/-- `M.Run s l s'`: some sequence of steps leads from `s` to `s'` and emits `l`. -/
inductive Run (M : Machine σ α ε) (s : σ) : List ε → σ → Prop
  | refl : Run M s [] s
  | tail : Run M s l s' → M.step s' a = some (s'', l') → Run M s (l ++ l') s''

theorem Run.single (h : M.step s a = some (s', l)) : M.Run s l s' := by
  simpa using Run.tail (.refl (M := M) (s := s)) h

theorem Run.trans (h : M.Run s l s') (h' : M.Run s' l' s'') : M.Run s (l ++ l') s'' := by
  induction h' with
  | refl => simpa using h
  | tail _ hstep ih => rw [← List.append_assoc]; exact ih.tail hstep

/-- The induction rule: an invariant of states and emitted events. -/
theorem Run.invariant {I : σ → List ε → Prop} (h : M.Run s l s') (init : I s [])
    (step : ∀ {t k a t' k'}, M.Run s k t → I t k → M.step t a = some (t', k') → I t' (k ++ k')) :
    I s' l := by
  induction h with
  | refl => exact init
  | tail hrun hstep ih => exact step hrun ih hstep

theorem run_of_exec {as : List α} (h : M.exec s as = some (s', l)) : M.Run s l s' := by
  induction as generalizing s l with
  | nil => cases h; exact .refl
  | cons a as ih =>
    simp only [exec] at h
    split at h
    · cases h
    · rename_i hstep
      split at h
      · cases h
      · rename_i hexec
        cases h
        exact (Run.single hstep).trans (ih hexec)

theorem exec_append {as bs : List α} (h : M.exec s as = some (s', l))
    (h' : M.exec s' bs = some (s'', l')) : M.exec s (as ++ bs) = some (s'', l ++ l') := by
  induction as generalizing s l with
  | nil => cases h; exact h'
  | cons a as ih =>
    simp only [exec, List.cons_append] at h ⊢
    split at h
    · cases h
    · split at h
      · cases h
      · rename_i hexec
        cases h
        simp only [ih hexec, List.append_assoc]

/-- The state and the events after the actions; meaningful when all of them are enabled. -/
def perform (M : Machine σ α ε) (s : σ) (as : List α) : σ × List ε := (M.exec s as).getD (s, [])

theorem exec_eq_perform {as : List α} (h : (M.exec s as).isSome) :
    M.exec s as = some (M.perform s as) := by
  obtain ⟨r, hr⟩ := Option.isSome_iff_exists.mp h
  simp [perform, hr]

theorem run_perform {as : List α} (h : (M.exec s as).isSome) :
    M.Run s (M.perform s as).2 (M.perform s as).1 :=
  run_of_exec (exec_eq_perform h)

theorem step_perform (h : (M.exec s [a]).isSome) : M.step s a = some (M.perform s [a]) := by
  have hexec := exec_eq_perform h
  simp only [exec] at hexec
  split at hexec
  · cases hexec
  · simp_all

/-- `M.RunIf ok s l s'`: a run in which every step satisfies `ok` in the state it is taken. -/
inductive RunIf (M : Machine σ α ε) (ok : σ → α → Prop) (s : σ) : List ε → σ → Prop
  | refl : RunIf M ok s [] s
  | tail : RunIf M ok s l s' → ok s' a → M.step s' a = some (s'', l') →
    RunIf M ok s (l ++ l') s''

theorem RunIf.run {ok : σ → α → Prop} (h : M.RunIf ok s l s') : M.Run s l s' := by
  induction h with
  | refl => exact .refl
  | tail _ _ hstep ih => exact ih.tail hstep

theorem RunIf.trans {ok : σ → α → Prop} (h : M.RunIf ok s l s') (h' : M.RunIf ok s' l' s'') :
    M.RunIf ok s (l ++ l') s'' := by
  induction h' with
  | refl => simpa using h
  | tail _ hok hstep ih => rw [← List.append_assoc]; exact ih.tail hok hstep

theorem RunIf.invariant {ok : σ → α → Prop} {I : σ → List ε → Prop} (h : M.RunIf ok s l s')
    (init : I s [])
    (step : ∀ {t k a t' k'}, M.Run s k t → I t k → ok t a → M.step t a = some (t', k') →
      I t' (k ++ k')) : I s' l := by
  induction h with
  | refl => exact init
  | tail hrun hok hstep ih => exact step hrun.run ih hok hstep

/-- A run stays where its end can only be entered from. -/
theorem RunIf.within {ok : σ → α → Prop} {A : σ → Prop} (h : M.RunIf ok s l s') (hA : A s')
    (back : ∀ {t a t' k}, ok t a → M.step t a = some (t', k) → A t' → A t) :
    M.RunIf (fun t a => A t ∧ ok t a) s l s' := by
  induction h with
  | refl => exact .refl
  | tail _ hok hstep ih =>
    have hbefore := back hok hstep hA
    exact (ih hbefore).tail ⟨hbefore, hok⟩ hstep

/-- A run from outside of `B` to `B`, where `B` is entered from `A` only and `A` from nowhere else,
has a step from `A` to `B`. -/
theorem RunIf.crosses {ok : σ → α → Prop} {A B : σ → Prop} (h : M.RunIf ok s l s') (hs : ¬ B s)
    (hB : B s') (backA : ∀ {t a t' k}, ok t a → M.step t a = some (t', k) → A t' → A t)
    (backB : ∀ {t a t' k}, ok t a → M.step t a = some (t', k) → B t' → B t ∨ A t) :
    ∃ t a t' k₁ k₂ k₃, l = (k₁ ++ k₂) ++ k₃ ∧ M.RunIf (fun t a => A t ∧ ok t a) s k₁ t ∧
      A t ∧ ok t a ∧ M.step t a = some (t', k₂) ∧ B t' ∧ M.RunIf ok t' k₃ s' := by
  induction h with
  | refl => exact absurd hB hs
  | tail hrun hok hstep ih =>
    rcases backB hok hstep hB with hbefore | hbefore
    · obtain ⟨t, a, t', k₁, k₂, k₃, rfl, h₁, ht, hta, hcross, hB', h₃⟩ := ih hbefore
      exact ⟨t, a, t', k₁, k₂, _, List.append_assoc .., h₁, ht, hta, hcross, hB',
        h₃.tail hok hstep⟩
    · exact ⟨_, _, _, _, _, [], (List.append_nil _).symm, hrun.within hbefore backA, hbefore, hok,
        hstep, hB, .refl⟩

theorem RunIf.mono {ok ok' : σ → α → Prop} (h : M.RunIf ok s l s')
    (himp : ∀ {t k a}, M.Run s k t → ok t a → ok' t a) : M.RunIf ok' s l s' := by
  induction h with
  | refl => exact .refl
  | tail hrun hok hstep ih => exact ih.tail (himp hrun.run hok) hstep

/-- The actions are enabled one after the other, and each satisfies `ok`. -/
def allowed (M : Machine σ α ε) (ok : σ → α → Bool) : σ → List α → Bool
  | _, [] => true
  | s, a :: as =>
    match M.step s a with
    | none => false
    | some (s', _) => ok s a && M.allowed ok s' as

theorem runIf_perform {ok : σ → α → Prop} {as : List α} (test : σ → α → Bool)
    (h : M.allowed test s as = true) (hok : ∀ s a, test s a = true → ok s a) :
    M.RunIf ok s (M.perform s as).2 (M.perform s as).1 := by
  suffices ∃ r, M.exec s as = some r ∧ M.RunIf ok s r.2 r.1 by
    obtain ⟨r, hexec, hrun⟩ := this
    simpa [perform, hexec] using hrun
  induction as generalizing s with
  | nil => exact ⟨(s, []), rfl, .refl⟩
  | cons a as ih =>
    simp only [allowed] at h
    split at h
    · cases h
    · rename_i s' l hstep
      simp only [Bool.and_eq_true] at h
      obtain ⟨r, hexec, hrun⟩ := ih h.2
      refine ⟨(r.1, l ++ r.2), by simp [exec, hstep, hexec], ?_⟩
      have hfirst : M.RunIf ok s l s' := by simpa using RunIf.tail .refl (hok s a h.1) hstep
      exact hfirst.trans hrun

/-! ## Ghost state -/

/-- The machine with a ghost state that records what its steps do and has no influence on them. -/
def withGhost {γ : Type} (M : Machine σ α ε) (update : γ → σ → α → γ) : Machine (σ × γ) α ε where
  step s a :=
    match M.step s.1 a with
    | none => none
    | some (s', l) => some ((s', update s.2 s.1 a), l)

section
variable {γ : Type} {update : γ → σ → α → γ}

theorem withGhost_step {g g' : γ} :
    (M.withGhost update).step (s, g) a = some ((s', g'), l) ↔
      M.step s a = some (s', l) ∧ g' = update g s a := by
  simp only [withGhost]
  cases hstep : M.step s a with
  | none => simp
  | some r => constructor <;> simp +contextual [eq_comm, Prod.ext_iff]

/-- A run with a ghost is a run. -/
theorem Run.eraseGhost {s s' : σ × γ} (h : (M.withGhost update).Run s l s') : M.Run s.1 l s'.1 := by
  induction h with
  | refl => exact .refl
  | tail _ hstep ih => exact ih.tail (withGhost_step.mp hstep).1

theorem RunIf.eraseGhost {ok : σ → α → Prop} {s s' : σ × γ}
    (h : (M.withGhost update).RunIf (fun s => ok s.1) s l s') : M.RunIf ok s.1 l s'.1 := by
  induction h with
  | refl => exact .refl
  | tail _ hok hstep ih => exact ih.tail hok (withGhost_step.mp hstep).1

theorem exec_eraseGhost {s s' : σ × γ} {as : List α}
    (h : (M.withGhost update).exec s as = some (s', l)) : M.exec s.1 as = some (s'.1, l) := by
  induction as generalizing s l with
  | nil => cases h; rfl
  | cons a as ih =>
    simp only [exec] at h ⊢
    split at h
    · cases h
    rename_i s₁ l₁ hstep
    split at h
    · cases h
    rename_i hexec
    cases h
    rw [(withGhost_step.mp hstep).1]
    simp only [ih hexec]

end

end Machine

end NetFT.Library
