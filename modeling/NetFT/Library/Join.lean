import Mathlib.Data.List.Basic

/-! Joining items with a separator, by a loop that puts the separator before an item unless nothing
was written yet. If no item is empty and none contains the first element of the separator, the
result determines the items. -/

namespace NetFT.Library

variable {α : Type}

/-- One iteration. -/
def joinItem [DecidableEq α] (sep result item : List α) : List α :=
  (if result = [] then result else result ++ sep) ++ item

def joined [DecidableEq α] (sep : List α) (items : List (List α)) : List α :=
  items.foldl (joinItem sep) []

/-- Items that can be told apart when they are joined with a separator that begins with `c`. -/
def Separable (c : α) (items : List (List α)) : Prop := ∀ item ∈ items, item ≠ [] ∧ c ∉ item

variable {sep result item : List α} {items items' : List (List α)} {c : α}

theorem intercalate_append (l : List α) :
    sep.intercalate ((l ++ item) :: items) = l ++ sep.intercalate (item :: items) := by
  induction l with
  | nil => rfl
  | cons x l ih => rw [List.cons_append, List.intercalate_cons_cons_left, ih, List.cons_append]

/-- The first element of the separator splits the result. -/
theorem intercalate_eq_single (items : List (List α)) :
    (c :: sep).intercalate (item :: items) =
      [c].intercalate (item :: items.map (sep ++ ·)) := by
  induction items generalizing item with
  | nil => simp
  | cons next items ih =>
    rw [List.map_cons, List.intercalate_cons_cons, List.intercalate_cons_cons, ih,
      intercalate_append]
    simp

variable [DecidableEq α]

theorem intercalate_injective (hc : c ∉ sep) (h : Separable c (item :: items))
    (h' : Separable c (item' :: items'))
    (heq : (c :: sep).intercalate (item :: items) = (c :: sep).intercalate (item' :: items')) :
    item :: items = item' :: items' := by
  have hsplit : ∀ item items, Separable c (item :: items) →
      ((c :: sep).intercalate (item :: items)).splitOn c = item :: items.map (sep ++ ·) := by
    intro item items h
    rw [intercalate_eq_single]
    refine List.splitOn_intercalate c (fun l hl => ?_) (List.cons_ne_nil _ _)
    rcases List.mem_cons.mp hl with rfl | hl
    · exact (h l List.mem_cons_self).2
    · obtain ⟨next, hnext, rfl⟩ := List.mem_map.mp hl
      have hnot := (h next (List.mem_cons_of_mem _ hnext)).2
      simp [hc, hnot]
  have hcons := congrArg (List.splitOn c) heq
  rw [hsplit _ _ h, hsplit _ _ h'] at hcons
  obtain ⟨rfl, hmap⟩ := List.cons.inj hcons
  rw [List.map_injective_iff.mpr (fun _ _ => List.append_cancel_left) hmap]

theorem foldl_joinItem (h : result ≠ []) :
    items.foldl (joinItem sep) result = sep.intercalate (result :: items) := by
  induction items generalizing result with
  | nil => simp
  | cons item items ih =>
    have hnext : joinItem sep result item = result ++ sep ++ item := by rw [joinItem, if_neg h]
    rw [List.foldl_cons, hnext, ih (by simp [h]), intercalate_append,
      List.intercalate_cons_cons]

/-- The loop joins the items. -/
theorem joined_cons (h : item ≠ []) :
    joined sep (item :: items) = sep.intercalate (item :: items) := by
  have hfirst : joinItem sep [] item = item := by rw [joinItem, if_pos rfl, List.nil_append]
  rw [joined, List.foldl_cons, hfirst, foldl_joinItem h]

theorem joined_eq_nil (h : Separable c items) : joined sep items = [] ↔ items = [] := by
  cases items with
  | nil => simp [joined]
  | cons item items =>
    obtain ⟨x, l, rfl⟩ := List.exists_cons_of_ne_nil (h item List.mem_cons_self).1
    rw [joined_cons (List.cons_ne_nil _ _), List.intercalate_cons_cons_left]
    simp

theorem joined_injective (hc : c ∉ sep) (h : Separable c items) (h' : Separable c items')
    (heq : joined (c :: sep) items = joined (c :: sep) items') : items = items' := by
  cases items with
  | nil => exact ((joined_eq_nil h').mp heq.symm).symm
  | cons item items =>
    cases items' with
    | nil => exact (joined_eq_nil h).mp heq
    | cons item' items' =>
      rw [joined_cons (h item List.mem_cons_self).1, joined_cons (h' item' List.mem_cons_self).1]
        at heq
      exact intercalate_injective hc h h' heq

end NetFT.Library
