import Mathlib.Data.List.Infix

/-! Searching a list for the first occurrence of a pattern. For a pattern without borders, the
first occurrence in a text that ends with it is that end, unless the text before it has one. -/

namespace NetFT.Library

variable {α : Type} {needle l a b : List α} {i : Nat}

/-- The index of the first occurrence of `needle`. -/
def firstIndex [DecidableEq α] (needle : List α) : List α → Option Nat
  | [] => if needle = [] then some 0 else none
  | x :: l => if needle <+: x :: l then some 0 else (firstIndex needle l).map (· + 1)

/-- No proper beginning of the pattern is also its end. -/
def Unbordered (needle : List α) : Prop :=
  ∀ k < needle.length, 0 < k → needle.take k ≠ needle.drop (needle.length - k)

instance [DecidableEq α] : Decidable (Unbordered needle) :=
  inferInstanceAs (Decidable (∀ k < _, _))

theorem Unbordered.isPrefix (h : Unbordered needle) (ha : a ≠ [])
    (hpre : needle <+: a ++ (needle ++ b)) : needle <+: a := by
  by_cases hlen : needle.length ≤ a.length
  · exact List.prefix_of_prefix_length_le hpre (List.prefix_append ..) hlen
  · have hpos : 0 < a.length := List.length_pos_iff.mpr ha
    have hlt : a.length < needle.length := Nat.lt_of_not_le hlen
    obtain ⟨c, hc⟩ := hpre
    -- the occurrence ends inside the pattern that follows `a`
    have hborder : needle.take (needle.length - a.length) = needle.drop a.length := by
      have hdrop := congrArg (List.drop a.length) hc
      rw [List.drop_append_of_le_length (Nat.le_of_lt hlt), List.drop_left] at hdrop
      have htake := congrArg (List.take (needle.length - a.length)) hdrop
      rw [List.take_append_of_le_length (by simp), List.take_append_of_le_length (Nat.sub_le ..),
        List.take_of_length_le (by simp)] at htake
      exact htake.symm
    have hsub : needle.length - (needle.length - a.length) = a.length := by omega
    refine absurd ?_ (h (needle.length - a.length) (by omega) (by omega))
    rw [hsub]
    exact hborder

variable [DecidableEq α]

theorem firstIndex_of_isPrefix (h : needle <+: l) : firstIndex needle l = some 0 := by
  cases l with
  | nil => rw [firstIndex, if_pos (List.prefix_nil.mp h)]
  | cons x l => rw [firstIndex, if_pos h]

/-- What a search that succeeds has found. -/
theorem firstIndex_eq_some (h : firstIndex needle l = some i) :
    ∃ a b, l = a ++ (needle ++ b) ∧ a.length = i ∧ (needle ≠ [] → ¬ needle <:+: a) := by
  induction l generalizing i with
  | nil =>
    simp only [firstIndex] at h
    split at h
    · cases h
      exact ⟨[], [], by simpa using ‹needle = []›, rfl, fun hne => absurd ‹_› hne⟩
    · cases h
  | cons x l ih =>
    simp only [firstIndex] at h
    split at h
    · cases h
      obtain ⟨b, hb⟩ := ‹needle <+: x :: l›
      exact ⟨[], b, hb.symm, rfl, fun hne hin => hne (List.infix_nil.mp hin)⟩
    · rename_i hnot
      obtain ⟨j, hj, rfl⟩ := Option.map_eq_some_iff.mp h
      obtain ⟨a, b, rfl, rfl, hfree⟩ := ih hj
      refine ⟨x :: a, b, rfl, rfl, fun hne hin => ?_⟩
      rcases List.infix_cons_iff.mp hin with hpre | hin
      · exact hnot (hpre.trans (List.prefix_append (x :: a) (needle ++ b)))
      · exact hfree hne hin

theorem firstIndex_append (h : Unbordered needle) (ha : ¬ needle <:+: a) (b : List α) :
    firstIndex needle (a ++ (needle ++ b)) = some a.length := by
  induction a with
  | nil => exact firstIndex_of_isPrefix (List.prefix_append ..)
  | cons x a ih =>
    have hnot : ¬ needle <+: x :: (a ++ (needle ++ b)) := fun hpre =>
      ha (h.isPrefix (a := x :: a) (List.cons_ne_nil x a) hpre).isInfix
    rw [List.cons_append, firstIndex, if_neg hnot, ih fun hin => ha (List.infix_cons hin)]
    rfl

theorem firstIndex_eq_none (h : firstIndex needle l = none) : ¬ needle <:+: l := by
  induction l with
  | nil =>
    simp only [firstIndex] at h
    split at h
    · cases h
    · exact fun hin => absurd (List.infix_nil.mp hin) ‹_›
  | cons x l ih =>
    simp only [firstIndex] at h
    split at h
    · cases h
    · rename_i hnot
      intro hin
      rcases List.infix_cons_iff.mp hin with hpre | hin
      · exact hnot hpre
      · exact ih (by simpa using h) hin

end NetFT.Library
