import Mathlib.Data.Prod.Lex
import Mathlib.Logic.Relation

/-! Waits-for graphs. A thread waits for the owner of the lock it is blocked on, or for another
thread directly: to end, or to clear a flag. Where every thread takes its locks in the order of
their ranks, a direct wait goes up in the stages of the threads, and a thread that waits directly
owns no lock, no thread waits for itself through others (`Contention.acyclic`). -/

namespace NetFT.Library

variable {τ κ : Type}

/-- No chain of `r` leads back to where it began. -/
def Acyclic (r : τ → τ → Prop) : Prop := ∀ t, ¬ Relation.TransGen r t t

/-- A relation that goes up in some order has no cycle. -/
theorem acyclic_of_lt {β : Type} [Preorder β] {r : τ → τ → Prop} (level : τ → β)
    (h : ∀ t t', r t t' → level t < level t') : Acyclic r := by
  have hchain : ∀ t t', Relation.TransGen r t t' → level t < level t' := fun t t' hr => by
    induction hr with
    | single hr => exact h _ _ hr
    | tail _ hr ih => exact ih.trans (h _ _ hr)
  exact fun t ht => lt_irrefl _ (hchain t t ht)

/-- A snapshot of threads and locks. -/
structure Contention (τ κ : Type) where
  owner : κ → Option τ
  /-- The lock that a thread is trying to take. -/
  wanted : τ → Option κ
  /-- A thread waits directly for another. -/
  awaits : τ → τ → Prop

namespace Contention

inductive WaitsFor (c : Contention τ κ) (t t' : τ) : Prop
  | lock (m : κ) (hwanted : c.wanted t = some m) (howner : c.owner m = some t')
  | direct (h : c.awaits t t')

/-- The locks have ranks, and the direct waits have stages. -/
structure Ranked (c : Contention τ κ) (rank : κ → Nat) (stage : τ → Nat) : Prop where
  ascending : ∀ t m m', c.wanted t = some m → c.owner m' = some t → rank m' < rank m
  staged : ∀ t t', c.awaits t t' → stage t < stage t'
  empty : ∀ t t', c.awaits t t' → c.wanted t = none ∧ ∀ m, c.owner m ≠ some t

variable {c : Contention τ κ} {rank : κ → Nat} {stage : τ → Nat}

/-- How far a thread is from running: those that wait directly come first, then those that are
blocked on a lock. -/
noncomputable def level (c : Contention τ κ) (rank : κ → Nat) (stage : τ → Nat) (t : τ) :
    ℕ ×ₗ ℕ :=
  open Classical in
  if ∃ t', c.awaits t t' then toLex (0, stage t)
  else
    match c.wanted t with
    | some m => toLex (1, rank m)
    | none => toLex (2, 0)

theorem level_direct {t t' : τ} (h : c.awaits t t') :
    c.level rank stage t = toLex (0, stage t) := if_pos ⟨t', h⟩

theorem level_lock {t : τ} {m : κ} (h : ¬ ∃ t', c.awaits t t') (hm : c.wanted t = some m) :
    c.level rank stage t = toLex (1, rank m) := by
  simp [level, h, hm]

theorem level_running {t : τ} (h : ¬ ∃ t', c.awaits t t') (hm : c.wanted t = none) :
    c.level rank stage t = toLex (2, 0) := by
  simp [level, h, hm]

theorem WaitsFor.level_lt (hr : c.Ranked rank stage) {t t' : τ} (h : c.WaitsFor t t') :
    c.level rank stage t < c.level rank stage t' := by
  by_cases hawaits : ∃ t'', c.awaits t' t''
  · obtain ⟨t'', ht''⟩ := hawaits
    rw [level_direct ht'']
    cases h with
    | lock m hwanted howner => exact absurd howner ((hr.empty t' t'' ht'').2 m)
    | direct h =>
      rw [level_direct h]
      exact Prod.Lex.toLex_lt_toLex.mpr (.inr ⟨rfl, hr.staged _ _ h⟩)
  · have hlow : ∀ a b, a < 1 → toLex (a, b) < c.level rank stage t' := fun a b ha => by
      cases hm : c.wanted t' with
      | some m' => rw [level_lock hawaits hm]; exact Prod.Lex.toLex_lt_toLex.mpr (.inl ha)
      | none =>
        rw [level_running hawaits hm]
        exact Prod.Lex.toLex_lt_toLex.mpr (.inl (ha.trans Nat.one_lt_two))
    cases h with
    | direct h => rw [level_direct h]; exact hlow _ _ Nat.one_pos
    | lock m hwanted howner =>
      have hnone : ¬ ∃ t'', c.awaits t t'' := by
        rintro ⟨t'', ht''⟩
        simp [(hr.empty t t'' ht'').1] at hwanted
      rw [level_lock hnone hwanted]
      cases hm : c.wanted t' with
      | some m' =>
        rw [level_lock hawaits hm]
        exact Prod.Lex.toLex_lt_toLex.mpr (.inr ⟨rfl, hr.ascending t' m' m hm howner⟩)
      | none =>
        rw [level_running hawaits hm]
        exact Prod.Lex.toLex_lt_toLex.mpr (.inl Nat.one_lt_two)

/-- Where locks are taken in order, there is no cycle. -/
theorem Ranked.acyclic (hr : c.Ranked rank stage) : Acyclic c.WaitsFor :=
  acyclic_of_lt (c.level rank stage) fun _ _ h => h.level_lt hr

end Contention

end NetFT.Library
