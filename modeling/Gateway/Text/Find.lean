import Gateway.Text.Occurs
import Gateway.Text.Utf8

/-! The first place where a pattern occurs. -/
namespace Text

section

variable {α : Type*} [DecidableEq α] {w a b s : List α} {x : α} {n : Nat}

/-- The place of the first occurrence. -/
def position (w : List α) : List α → Option Nat
  | [] => if w = [] then some 0 else none
  | c :: rest => if w <+: c :: rest then some 0 else (position w rest).map (· + 1)

/-- The same from a place on. -/
def find (haystack needle : List α) (start : Nat) : Option Nat :=
  if start ≤ haystack.length then (position needle (haystack.drop start)).map (· + start) else none

theorem position_prefix (w b : List α) : position w (w ++ b) = some 0 := by
  cases h : w ++ b with
  | nil => simp [position, (List.append_eq_nil_iff.mp h).1]
  | cons c rest =>
      rw [position, if_pos]
      rw [← h]
      exact List.prefix_append w b

/-- What is found is there. -/
theorem position_eq_some (h : position w s = some n) : ∃ a b, s = a ++ (w ++ b) ∧ a.length = n := by
  induction s generalizing n with
  | nil =>
      rw [position] at h
      split_ifs at h with hNil
      cases h
      exact ⟨[], [], by simp [hNil], rfl⟩
  | cons c rest ih =>
      rw [position] at h
      split_ifs at h with hPrefix
      · cases h
        obtain ⟨b, hb⟩ := hPrefix
        exact ⟨[], b, hb.symm, rfl⟩
      · obtain ⟨m, hm, rfl⟩ := Option.map_eq_some_iff.mp h
        obtain ⟨a, b, rfl, rfl⟩ := ih hm
        exact ⟨c :: a, b, rfl, rfl⟩

/-- A separator that the pattern does not contain, behind a text where it does not
occur, is behind the first occurrence as well. -/
theorem position_append_cons (hSome : w ≠ []) (hx : x ∉ w) (ha : ¬ w <:+: a) (b : List α) :
    position w (a ++ x :: b) = (position w b).map (· + (a.length + 1)) := by
  induction a with
  | nil =>
      have hNot : ¬ w <+: x :: b := by
        intro h
        have hNil := (prefix_append_cons_iff (a := []) hx).mp h
        exact hSome (List.prefix_nil.mp hNil)
      rw [List.nil_append, position, if_neg hNot]
      rfl
  | cons c a ih =>
      have hNot : ¬ w <+: c :: (a ++ x :: b) := by
        rw [← List.cons_append, prefix_append_cons_iff hx]
        exact fun h => ha h.isInfix
      rw [List.cons_append, position, if_neg hNot, ih fun h => ha (List.infix_cons h), Option.map_map]
      congr 1

/-- An element that is not the first of the pattern. -/
theorem position_cons_of_head (hSome : w ≠ []) (hx : w.head? ≠ some x) (s : List α) :
    position w (x :: s) = (position w s).map (· + 1) := by
  rw [position, if_neg]
  rintro ⟨t, ht⟩
  cases w with
  | nil => exact hSome rfl
  | cons y w => exact hx (congrArg some (List.cons.inj ht).1)

/-- Elements of which none is the first of the pattern. -/
theorem position_append_of_head (hFirst : w.head? = some x) (hx : x ∉ a) (s : List α) :
    position w (a ++ s) = (position w s).map (· + a.length) := by
  have hSome : w ≠ [] := by
    rintro rfl
    cases hFirst
  induction a with
  | nil => simp
  | cons y a ih =>
      obtain ⟨hNe, hRest⟩ := not_or.mp (mt List.mem_cons.mpr hx)
      have hHead : w.head? ≠ some y := by
        rw [hFirst]
        exact fun hSame => hNe (Option.some.inj hSame)
      rw [List.cons_append, position_cons_of_head hSome hHead, ih hRest, Option.map_map]
      congr 1

theorem position_eq_none (h : ¬ w <:+: s) : position w s = none := by
  cases hPlace : position w s with
  | none => rfl
  | some n =>
      obtain ⟨a, b, rfl, -⟩ := position_eq_some hPlace
      exact absurd ⟨a, b, by simp⟩ h

theorem find_append (a s w : List α) :
    find (a ++ s) w a.length = (position w s).map (· + a.length) := by
  rw [find, if_pos (by simp), List.drop_left]

theorem find_eq_some (h : find s w n = some m) : ∃ a b, s = a ++ (w ++ b) ∧ a.length = m ∧ n ≤ m := by
  unfold find at h
  split_ifs at h with hStart
  obtain ⟨k, hk, rfl⟩ := Option.map_eq_some_iff.mp h
  obtain ⟨a, b, hDrop, rfl⟩ := position_eq_some hk
  refine ⟨s.take n ++ a, b, ?_, ?_, Nat.le_add_left _ _⟩
  · rw [List.append_assoc, ← hDrop, List.take_append_drop]
  · rw [List.length_append, List.length_take, Nat.min_eq_left hStart, Nat.add_comm]

end

/-- A byte below 128 stands for its own character. -/
theorem mem_of_mem_toUtf8 {b : UInt8} (hAscii : b.toNat < 0x80) {s : List Char}
    (h : b ∈ toUtf8 s) : Char.ofNat b.toNat ∈ s := by
  obtain ⟨c, hc, hb⟩ := List.mem_flatMap.mp h
  have hHigh : ∀ m, 0x80 ≤ m → m < 0x100 → b ≠ m.toUInt8 := by
    rintro m hLow hTop rfl
    rw [Nat.toUInt8, UInt8.toNat_ofNat', Nat.mod_eq_of_lt hTop] at hAscii
    omega
  have hScalar : c.toNat < 0xD800 ∨ (0xDFFF < c.toNat ∧ c.toNat < 0x110000) := c.valid
  unfold charBytes at hb
  dsimp only at hb
  split_ifs at hb with h1 h2 h3
  · obtain rfl := List.mem_singleton.mp hb
    have hSame : c.toNat.toUInt8.toNat = c.toNat := by
      rw [Nat.toUInt8, UInt8.toNat_ofNat', Nat.mod_eq_of_lt (by omega)]
    rwa [hSame, Char.ofNat_toNat]
  · simp only [List.mem_cons, List.not_mem_nil, or_false] at hb
    rcases hb with hb | hb
    · exact absurd hb (hHigh _ (by omega) (by omega))
    · exact absurd hb (hHigh _ (by omega) (by omega))
  · simp only [List.mem_cons, List.not_mem_nil, or_false] at hb
    rcases hb with hb | hb | hb
    · exact absurd hb (hHigh _ (by omega) (by omega))
    · exact absurd hb (hHigh _ (by omega) (by omega))
    · exact absurd hb (hHigh _ (by omega) (by omega))
  · simp only [List.mem_cons, List.not_mem_nil, or_false] at hb
    rcases hb with hb | hb | hb | hb
    · exact absurd hb (hHigh _ (by omega) (by omega))
    · exact absurd hb (hHigh _ (by omega) (by omega))
    · exact absurd hb (hHigh _ (by omega) (by omega))
    · exact absurd hb (hHigh _ (by omega) (by omega))

end Text
