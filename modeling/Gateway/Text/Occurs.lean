import Mathlib.Data.List.Infix

/-! Where one list occurs inside another. A separator that the pattern does
not contain cuts every occurrence to one of its two sides. -/
namespace Text

variable {α : Type*} {w a b t : List α} {x : α}

theorem prefix_append_cons_iff (hx : x ∉ w) : w <+: a ++ x :: b ↔ w <+: a := by
  induction a generalizing w with
  | nil =>
      cases w with
      | nil => simp
      | cons y ys =>
          have hNe : y ≠ x := fun h => hx (by simp [h])
          simp [List.cons_prefix_cons, hNe]
  | cons c rest ih =>
      cases w with
      | nil => simp
      | cons y ys =>
          have hRest : x ∉ ys := fun h => hx (List.mem_cons_of_mem _ h)
          simp [List.cons_prefix_cons, ih hRest]

theorem infix_append_cons_iff (hx : x ∉ w) :
    w <:+: a ++ x :: b ↔ w <:+: a ∨ w <:+: b := by
  induction a with
  | nil =>
      have hHead := prefix_append_cons_iff (a := []) (b := b) hx
      simp only [List.nil_append] at hHead ⊢
      rw [List.infix_cons_iff, hHead, List.prefix_nil, List.infix_nil]
  | cons c rest ih =>
      have hHead := prefix_append_cons_iff (a := c :: rest) (b := b) hx
      simp only [List.cons_append] at hHead ⊢
      rw [List.infix_cons_iff, ih, hHead, List.infix_cons_iff, or_assoc]

theorem infix_cons_iff_of_notMem (hx : x ∉ w) : w <:+: x :: b ↔ w <:+: b := by
  have h := infix_append_cons_iff (a := []) (b := b) hx
  simp only [List.nil_append, List.infix_nil] at h
  rw [h]
  constructor
  · rintro (rfl | h)
    · exact List.nil_infix
    · exact h
  · exact Or.inr

/-- A pattern holding an element the text lacks does not occur in it. -/
theorem not_infix_of_notMem (hw : x ∈ w) (ht : x ∉ t) : ¬ w <:+: t :=
  fun h => ht (h.subset hw)

/-- What a test over all elements shows. -/
theorem forall_mem_of_all {p : α → Prop} [DecidablePred p] {t : List α}
    (h : t.all (fun c => decide (p c)) = true) : ∀ c ∈ t, p c := by
  simpa using h

/-- An occurrence cannot begin where the pattern's first element is absent. -/
theorem cons_infix_append_iff (hx : x ∉ a) : x :: w <:+: a ++ t ↔ x :: w <:+: t := by
  induction a with
  | nil => simp
  | cons c rest ih =>
      have hNe : x ≠ c := fun h => hx (by simp [h])
      have hRest : x ∉ rest := fun h => hx (List.mem_cons_of_mem _ h)
      rw [List.cons_append, List.infix_cons_iff, List.cons_prefix_cons]
      simp [hNe, ih hRest]

end Text
