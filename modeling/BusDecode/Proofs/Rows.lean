import BusDecode.Annotation
import Mathlib.Data.List.Basic

/-!
# Rows and texts of annotations

Annotations are shown in rows, and within a row they come in the order of their start times
(`Ascending`).  Rows have nothing to do with each other: a command starts before its bytes and is
handed on after them.  What a text begins with (`Begins`) tells the annotations of one row apart.
-/

set_option autoImplicit false

namespace BusDecode

/-! ## What texts begin with -/

/-- A text begins with its first part. -/
theorem toList_initial (lead rest : String) : lead.toList <+: (lead ++ rest).toList := by
  rw [String.toList_append]
  exact List.prefix_append _ _

theorem toList_initial_three (lead a b c : String) :
    lead.toList <+: (lead ++ a ++ b ++ c).toList :=
  (toList_initial _ _).trans ((toList_initial _ _).trans (toList_initial _ _))

/-- Texts of which neither begins with the other one. -/
def Apart (lead other : String) : Prop :=
  ¬lead.toList <+: other.toList ∧ ¬other.toList <+: lead.toList

instance (lead other : String) : Decidable (Apart lead other) :=
  inferInstanceAs (Decidable (_ ∧ _))

/-- Nothing begins with both. -/
theorem Apart.not_initial {lead other : String} {letters : List Char} (h : Apart lead other)
    (hother : other.toList <+: letters) : ¬lead.toList <+: letters :=
  fun hlead => (List.prefix_or_prefix_of_prefix hlead hother).elim h.1 h.2

namespace Annotation

/-- Within a row, start times never go back. -/
def Ascending (row : String) (xs : List Annotation) : Prop :=
  xs.Pairwise fun a b => a.row = row → b.row = row → a.start ≤ b.start

instance (row : String) (xs : List Annotation) : Decidable (Ascending row xs) :=
  inferInstanceAs (Decidable (List.Pairwise _ _))

variable {row : String} {xs ys : List Annotation}

theorem ascending_nil : Ascending row [] :=
  List.Pairwise.nil

theorem ascending_one (a : Annotation) : Ascending row [a] :=
  List.pairwise_singleton _ a

theorem ascending_append :
    Ascending row (xs ++ ys) ↔
      Ascending row xs ∧ Ascending row ys ∧
        ∀ a ∈ xs, ∀ b ∈ ys, a.row = row → b.row = row → a.start ≤ b.start :=
  List.pairwise_append

/-- Annotations that all start at one point are in order. -/
theorem ascending_of_start {start : Nat} (h : ∀ a ∈ xs, a.start = start) : Ascending row xs :=
  List.pairwise_of_forall_mem_list fun a ha b hb _ _ =>
    Nat.le_of_eq ((h a ha).trans (h b hb).symm)

/-! ## Texts -/

/-- The longest text begins with certain words. -/
def Begins (lead : String) (a : Annotation) : Prop :=
  lead.toList <+: a.text.toList

instance (lead : String) (a : Annotation) : Decidable (Begins lead a) :=
  inferInstanceAs (Decidable (_ <+: _))

theorem begins_of_text {lead rest : String} {a : Annotation} (h : a.text = lead ++ rest) :
    Begins lead a := by
  rw [Begins, h]
  exact toList_initial _ _

/-- A text that begins otherwise. -/
theorem not_begins {lead other rest : String} {a : Annotation} (h : a.text = other ++ rest)
    (hapart : Apart lead other) : ¬Begins lead a := by
  rw [Begins, h]
  exact hapart.not_initial (toList_initial _ _)

end Annotation

end BusDecode
