import Mathlib.Data.Finset.Basic
import Mathlib.Data.List.Count

/-! Histories of operations on handles that are acquired, used and released. The environment hands
out a handle only while it is not held (`Granted`); a program is `Lawful` if it uses and releases a
handle only while it is held. In a lawful history every handle is released as often as it was
acquired, except for those still held. -/

namespace NetFT.Library

inductive HandleOp (η : Type)
  | acquire (h : η)
  | use (h : η)
  | release (h : η)
  deriving DecidableEq

namespace HandleOp

variable {η : Type} [DecidableEq η] {s : Finset η} {l l' : List (HandleOp η)}

/-- The handles that are held after an operation. -/
def advance (s : Finset η) : HandleOp η → Finset η
  | .acquire h => insert h s
  | .use _ => s
  | .release h => s.erase h

/-- The handles that are held after a history. -/
def held (s : Finset η) (l : List (HandleOp η)) : Finset η := l.foldl advance s

def Granted (s : Finset η) : List (HandleOp η) → Prop
  | [] => True
  | .acquire h :: l => h ∉ s ∧ Granted (insert h s) l
  | .use _ :: l => Granted s l
  | .release h :: l => Granted (s.erase h) l

instance decidableGranted : (s : Finset η) → (l : List (HandleOp η)) → Decidable (Granted s l)
  | _, [] => .isTrue trivial
  | s, .acquire h :: l => @instDecidableAnd _ _ _ (decidableGranted (insert h s) l)
  | s, .use _ :: l => decidableGranted s l
  | s, .release h :: l => decidableGranted (s.erase h) l

def Lawful (s : Finset η) : List (HandleOp η) → Prop
  | [] => True
  | .acquire h :: l => Lawful (insert h s) l
  | .use h :: l => h ∈ s ∧ Lawful s l
  | .release h :: l => h ∈ s ∧ Lawful (s.erase h) l

/-- How often a handle was acquired. -/
def acquired (h : η) (l : List (HandleOp η)) : Nat := l.count (.acquire h)

/-- How often a handle was released. -/
def released (h : η) (l : List (HandleOp η)) : Nat := l.count (.release h)

@[simp] theorem held_nil : held s [] = s := rfl

theorem held_cons (op : HandleOp η) : held s (op :: l) = held (advance s op) l := rfl

theorem held_append : held s (l ++ l') = held (held s l) l' := List.foldl_append

theorem granted_append : Granted s (l ++ l') ↔ Granted s l ∧ Granted (held s l) l' := by
  induction l generalizing s with
  | nil => simp [Granted]
  | cons op l ih => cases op <;> simp [Granted, held, advance, ih, and_assoc]

theorem lawful_append : Lawful s (l ++ l') ↔ Lawful s l ∧ Lawful (held s l) l' := by
  induction l generalizing s with
  | nil => simp [Lawful]
  | cons op l ih => cases op <;> simp [Lawful, held, advance, ih, and_assoc]

/-- A handle is acquired once more than it is released exactly while it is held. -/
theorem balance (hg : Granted s l) (hl : Lawful s l) (h : η) :
    acquired h l + (if h ∈ s then 1 else 0) = released h l + if h ∈ held s l then 1 else 0 := by
  induction l generalizing s with
  | nil => rfl
  | cons op l ih =>
    rw [held_cons]
    cases op with
    | acquire h' =>
      have hrest := ih hg.2 hl
      by_cases hh : h = h'
      · subst hh
        rw [if_pos (Finset.mem_insert_self ..)] at hrest
        rw [if_neg hg.1, acquired, List.count_cons_self, released,
          List.count_cons_of_ne (by simp), advance]
        exact hrest
      · simp only [Finset.mem_insert, or_iff_right hh] at hrest
        rw [acquired, List.count_cons_of_ne (by simp [Ne.symm hh]), released,
          List.count_cons_of_ne (by simp), advance]
        exact hrest
    | use h' =>
      rw [acquired, List.count_cons_of_ne (by simp), released, List.count_cons_of_ne (by simp),
        advance]
      exact ih hg hl.2
    | release h' =>
      have hrest := ih hg hl.2
      by_cases hh : h = h'
      · subst hh
        rw [if_neg (Finset.notMem_erase h s)] at hrest
        rw [if_pos hl.1, acquired, List.count_cons_of_ne (by simp), released,
          List.count_cons_self, advance, Nat.add_right_comm]
        exact congrArg (· + 1) hrest
      · simp only [Finset.mem_erase, ne_eq, hh, not_false_eq_true, true_and] at hrest
        rw [acquired, List.count_cons_of_ne (by simp), released,
          List.count_cons_of_ne (by simp [Ne.symm hh]), advance]
        exact hrest

/-- Every use and every release in a lawful history is of a handle that is held. -/
theorem Lawful.held_at {l₁ l₂ : List (HandleOp η)} {op : HandleOp η} {h : η}
    (hl : Lawful s (l₁ ++ op :: l₂)) (hop : op = .use h ∨ op = .release h) : h ∈ held s l₁ := by
  obtain ⟨-, hrest⟩ := lawful_append.mp hl
  rcases hop with rfl | rfl
  · exact hrest.1
  · exact hrest.1

end HandleOp

end NetFT.Library
