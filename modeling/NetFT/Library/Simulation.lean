import NetFT.Library.Machine

/-! Simulation of machines: what a step of one machine emits a run of the other can emit, and they
stay related. Then every run of the one is matched by a run of the other. -/

namespace NetFT.Library

variable {σ τ υ α β γ ε : Type} {M : Machine σ α ε} {N : Machine τ β ε} {K : Machine υ γ ε}
  {R : σ → τ → Prop} {S : τ → υ → Prop} {s s' : σ} {t : τ} {l : List ε}

/-- `N` simulates `M` along `R`; a step of `M` may take several steps of `N`, or none. -/
def Machine.Simulates (N : Machine τ β ε) (M : Machine σ α ε) (R : σ → τ → Prop) : Prop :=
  ∀ {s t a s' l}, R s t → M.step s a = some (s', l) → ∃ t', N.Run t l t' ∧ R s' t'

namespace Machine

theorem Simulates.run (h : N.Simulates M R) (hr : R s t) (hrun : M.Run s l s') :
    ∃ t', N.Run t l t' ∧ R s' t' := by
  induction hrun with
  | refl => exact ⟨t, .refl, hr⟩
  | tail _ hstep ih =>
    obtain ⟨t₁, hrun, hr⟩ := ih
    obtain ⟨t', hrun', hr'⟩ := h hr hstep
    exact ⟨t', hrun.trans hrun', hr'⟩

end Machine

end NetFT.Library
