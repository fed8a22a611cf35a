import Mathlib.Data.List.Basic
import Mathlib.Tactic.IntervalCases

/-! Numbers written with a fixed count of digits. Their order as text is their
order as numbers. -/
namespace Text

/-- After texts of one length the rest counts only where they are the same. -/
theorem append_lt_append_iff {a b : List Char} (s t : List Char) (h : a.length = b.length) :
    a ++ s < b ++ t ↔ a < b ∨ a = b ∧ s < t := by
  induction a generalizing b with
  | nil =>
      obtain rfl : b = [] := List.length_eq_zero_iff.mp h.symm
      simp
  | cons c cs ih =>
      cases b with
      | nil => simp at h
      | cons d ds =>
          have hTail := ih (Nat.succ.inj h)
          rw [List.cons_append, List.cons_append, List.cons_lt_cons_iff, List.cons_lt_cons_iff, hTail]
          constructor
          · rintro (hHead | ⟨rfl, hLt | ⟨rfl, hLt⟩⟩)
            · exact .inl (.inl hHead)
            · exact .inl (.inr ⟨rfl, hLt⟩)
            · exact .inr ⟨rfl, hLt⟩
          · rintro ((hHead | ⟨rfl, hLt⟩) | ⟨hSame, hLt⟩)
            · exact .inl hHead
            · exact .inr ⟨rfl, .inl hLt⟩
            · obtain ⟨rfl, rfl⟩ := List.cons.inj hSame
              exact .inr ⟨rfl, .inr ⟨rfl, hLt⟩⟩

/-- The last digits of a number. -/
def digits : Nat → Nat → List Char
  | 0, _ => []
  | width + 1, n => digits width (n / 10) ++ [Nat.digitChar (n % 10)]

@[simp] theorem length_digits (width n : Nat) : (digits width n).length = width := by
  induction width generalizing n with
  | zero => rfl
  | succ width ih => simp [digits, ih]

theorem digitChar_lt_iff {m n : Nat} (hm : m < 10) (hn : n < 10) :
    Nat.digitChar m < Nat.digitChar n ↔ m < n := by
  interval_cases m <;> interval_cases n <;> decide

theorem digitChar_inj {m n : Nat} (hm : m < 10) (hn : n < 10) :
    Nat.digitChar m = Nat.digitChar n ↔ m = n := by
  interval_cases m <;> interval_cases n <;> decide

theorem digits_inj {width m n : Nat} (hm : m < 10 ^ width) (hn : n < 10 ^ width) :
    digits width m = digits width n ↔ m = n := by
  induction width generalizing m n with
  | zero =>
      have hZero : m = n := by simp at hm hn; omega
      simp [hZero]
  | succ width ih =>
      rw [pow_succ] at hm hn
      have hFront := ih (m := m / 10) (n := n / 10) (by omega) (by omega)
      have hLast := digitChar_inj (Nat.mod_lt m (by decide)) (Nat.mod_lt n (by decide))
      rw [digits, digits, List.append_singleton_inj, hFront, hLast]
      omega

theorem digits_lt_iff {width m n : Nat} (hm : m < 10 ^ width) (hn : n < 10 ^ width) :
    digits width m < digits width n ↔ m < n := by
  induction width generalizing m n with
  | zero =>
      have hZero : m = n := by simp at hm hn; omega
      simp [hZero, digits]
  | succ width ih =>
      rw [pow_succ] at hm hn
      have hFront := ih (m := m / 10) (n := n / 10) (by omega) (by omega)
      have hSame : digits width (m / 10) = digits width (n / 10) ↔ m / 10 = n / 10 :=
        digits_inj (by omega) (by omega)
      have hLast := digitChar_lt_iff (Nat.mod_lt m (by decide)) (Nat.mod_lt n (by decide))
      simp only [digits]
      rw [append_lt_append_iff _ _ (by simp), hFront, hSame]
      simp [List.cons_lt_cons_iff, hLast]
      omega

/-- A character before the digits comes before any number. -/
theorem lt_digits_append {c : Char} (h : ∀ n < 10, c < Nat.digitChar n) (width n : Nat)
    (s t : List Char) : c :: s < digits (width + 1) n ++ t := by
  induction width generalizing n t with
  | zero => exact List.cons_lt_cons_iff.mpr (.inl (h _ (Nat.mod_lt n (by decide))))
  | succ width ih =>
      rw [digits, List.append_assoc]
      exact ih (n / 10) _

theorem digits_add (front back n : Nat) :
    digits (front + back) n = digits front (n / 10 ^ back) ++ digits back n := by
  induction back generalizing n with
  | zero => simp [digits]
  | succ back ih =>
      rw [← Nat.add_assoc, digits, ih, digits, List.append_assoc, Nat.div_div_eq_div_mul,
        ← pow_succ']

section

variable {c : Char} (front back : Nat) {m n : Nat} (s : List Char)

/-- A shorter number before a longer one that goes on from it, or a greater one. -/
theorem shorter_lt (hc : ∀ n < 10, c < Nat.digitChar n) (hm : m < 10 ^ front)
    (hn : n / 10 ^ (back + 1) < 10 ^ front) (h : m ≤ n / 10 ^ (back + 1)) :
    digits front m ++ c :: s < digits (front + (back + 1)) n ++ c :: s := by
  rw [digits_add, List.append_assoc, append_lt_append_iff _ _ (by simp), digits_lt_iff hm hn,
    digits_inj hm hn]
  rcases h.lt_or_eq with hLess | hSame
  · exact .inl hLess
  · exact .inr ⟨hSame, lt_digits_append hc back n s _⟩

theorem longer_lt (hm : m / 10 ^ back < 10 ^ front) (hn : n < 10 ^ front)
    (h : m / 10 ^ back < n) :
    digits (front + back) m ++ c :: s < digits front n ++ c :: s := by
  rw [digits_add, List.append_assoc, append_lt_append_iff _ _ (by simp), digits_lt_iff hm hn]
  exact .inl h

end

end Text
