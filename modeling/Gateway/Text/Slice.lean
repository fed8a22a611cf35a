import Mathlib.Algebra.GroupWithZero.Nat
import Mathlib.Data.List.Basic

/-! Parts of a text named by the bytes at which they begin and end in UTF-8. A
part exists only between two characters. -/
namespace Text

/-- Bytes of a text in UTF-8. -/
def byteLength (s : List Char) : Nat := (s.map Char.utf8Size).sum

@[simp] theorem byteLength_nil : byteLength [] = 0 := rfl

@[simp] theorem byteLength_cons (c : Char) (s : List Char) :
    byteLength (c :: s) = c.utf8Size + byteLength s := by
  simp [byteLength]

@[simp] theorem byteLength_append (s t : List Char) :
    byteLength (s ++ t) = byteLength s + byteLength t := by
  simp [byteLength]

theorem eq_nil_of_byteLength {s : List Char} (h : byteLength s = 0) : s = [] := by
  cases s with
  | nil => rfl
  | cons c s =>
      have := c.utf8Size_pos
      rw [byteLength_cons] at h
      omega

/-- Between two characters, or at an end of the text. -/
def Boundary (s : List Char) (n : Nat) : Prop := ∃ a b, s = a ++ b ∧ byteLength a = n

theorem Boundary.le {s : List Char} {n : Nat} (h : Boundary s n) : n ≤ byteLength s := by
  obtain ⟨a, b, rfl, rfl⟩ := h
  simp

theorem Boundary.max {s : List Char} {m n : Nat} (hm : Boundary s m) (hn : Boundary s n) :
    Boundary s (max m n) := by
  rcases Nat.le_total m n with h | h
  · rwa [Nat.max_eq_right h]
  · rwa [Nat.max_eq_left h]

theorem boundary_zero (s : List Char) : Boundary s 0 := ⟨[], s, rfl, rfl⟩

theorem boundary_byteLength (s : List Char) : Boundary s (byteLength s) := ⟨s, [], by simp, rfl⟩

/-- Both sides of a byte position. -/
def cutAt : List Char → Nat → Option (List Char × List Char)
  | s, 0 => some ([], s)
  | [], _ + 1 => none
  | c :: s, n + 1 =>
      if c.utf8Size ≤ n + 1 then
        (cutAt s (n + 1 - c.utf8Size)).map fun (a, b) => (c :: a, b)
      else none

theorem cutAt_eq_some_iff {s a b : List Char} {n : Nat} :
    cutAt s n = some (a, b) ↔ s = a ++ b ∧ byteLength a = n := by
  induction s generalizing n a with
  | nil =>
      cases n with
      | zero =>
          simp only [cutAt, Option.some.injEq, Prod.mk.injEq, List.nil_eq_append_iff]
          constructor
          · rintro ⟨rfl, rfl⟩
            simp
          · rintro ⟨⟨rfl, rfl⟩, -⟩
            simp
      | succ n =>
          simp only [cutAt, List.nil_eq_append_iff, reduceCtorEq, false_iff, not_and, and_imp]
          rintro rfl -
          simp
  | cons c s ih =>
      have hPos := c.utf8Size_pos
      cases n with
      | zero =>
          simp only [cutAt, Option.some.injEq, Prod.mk.injEq]
          constructor
          · rintro ⟨rfl, rfl⟩
            simp
          · rintro ⟨h, hLength⟩
            cases a with
            | nil => exact ⟨rfl, h⟩
            | cons d a =>
                have := d.utf8Size_pos
                rw [byteLength_cons] at hLength
                omega
      | succ n =>
          simp only [cutAt]
          cases a with
          | nil => split_ifs <;> simp
          | cons d a =>
              split_ifs with hFits
              · simp only [Option.map_eq_some_iff, Prod.mk.injEq, Prod.exists, List.cons_append,
                  List.cons.injEq, byteLength_cons]
                constructor
                · rintro ⟨x, y, h, ⟨rfl, rfl⟩, rfl⟩
                  obtain ⟨rfl, hLength⟩ := ih.mp h
                  exact ⟨⟨rfl, rfl⟩, by omega⟩
                · rintro ⟨⟨rfl, hs⟩, hLength⟩
                  exact ⟨a, b, ih.mpr ⟨hs, by omega⟩, ⟨rfl, rfl⟩, rfl⟩
              · simp only [List.cons_append, List.cons.injEq, byteLength_cons, false_iff, not_and,
                  and_imp]
                rintro rfl -
                omega

/-- What stands between two byte positions. -/
def slice (s : List Char) (start stop : Nat) : Option (List Char) :=
  if start ≤ stop then
    (cutAt s stop).bind fun (front, _) => (cutAt front start).map Prod.snd
  else none

theorem slice_eq_some_iff {s w : List Char} {start stop : Nat} :
    slice s start stop = some w ↔
      ∃ a b, s = a ++ (w ++ b) ∧ byteLength a = start ∧ start + byteLength w = stop := by
  unfold slice
  constructor
  · intro h
    split_ifs at h with hOrder
    obtain ⟨⟨front, back⟩, hCut, h⟩ := Option.bind_eq_some_iff.mp h
    obtain ⟨⟨a, w'⟩, hFront, rfl⟩ := Option.map_eq_some_iff.mp h
    obtain ⟨rfl, hStop⟩ := cutAt_eq_some_iff.mp hCut
    obtain ⟨rfl, hStart⟩ := cutAt_eq_some_iff.mp hFront
    rw [byteLength_append, hStart] at hStop
    exact ⟨a, back, by simp, hStart, hStop⟩
  · rintro ⟨a, b, rfl, rfl, rfl⟩
    have hFront : cutAt (a ++ (w ++ b)) (byteLength a + byteLength w) = some (a ++ w, b) :=
      cutAt_eq_some_iff.mpr ⟨by simp, by simp⟩
    have hBack : cutAt (a ++ w) (byteLength a) = some (a, w) := cutAt_eq_some_iff.mpr ⟨rfl, rfl⟩
    rw [if_pos (Nat.le_add_right _ _), hFront, Option.bind_some]
    dsimp only
    rw [hBack, Option.map_some]

/-- Two positions between characters, in order, bound a part. -/
theorem exists_slice {s : List Char} {start stop : Nat} (hStart : Boundary s start)
    (hStop : Boundary s stop) (h : start ≤ stop) : ∃ w, slice s start stop = some w := by
  obtain ⟨a, b, rfl, rfl⟩ := hStart
  obtain ⟨a', b', hSame, rfl⟩ := hStop
  rcases List.append_eq_append_iff.mp hSame with ⟨w, rfl, rfl⟩ | ⟨w, rfl, rfl⟩
  · exact ⟨w, slice_eq_some_iff.mpr ⟨a, b', rfl, rfl, by simp⟩⟩
  · rw [byteLength_append] at h
    obtain rfl := eq_nil_of_byteLength (show byteLength w = 0 by omega)
    exact ⟨[], slice_eq_some_iff.mpr ⟨a', b, by simp, by simp, by simp⟩⟩

/-- Of two texts that begin a third, the one of no more bytes begins the other. -/
theorem exists_append_of_byteLength_le {a b s t : List Char} (h : a ++ s = b ++ t)
    (hLength : byteLength a ≤ byteLength b) : ∃ w, b = a ++ w := by
  rcases List.append_eq_append_iff.mp h with ⟨w, rfl, -⟩ | ⟨w, rfl, -⟩
  · exact ⟨w, rfl⟩
  · rw [byteLength_append] at hLength
    obtain rfl := eq_nil_of_byteLength (show byteLength w = 0 by omega)
    exact ⟨[], by simp⟩

/-- A longer part goes on from a shorter one. -/
theorem slice_extend {s v w : List Char} {start stop later : Nat} (h : slice s start stop = some w)
    (hLater : slice s start later = some v) (hOrder : stop ≤ later) : ∃ t, v = w ++ t := by
  obtain ⟨a, b, rfl, rfl, rfl⟩ := slice_eq_some_iff.mp h
  obtain ⟨a', b', hSame, hStart, rfl⟩ := slice_eq_some_iff.mp hLater
  obtain ⟨x, rfl⟩ := exists_append_of_byteLength_le hSame (Nat.le_of_eq hStart.symm)
  rw [byteLength_append] at hStart
  obtain rfl := eq_nil_of_byteLength (show byteLength x = 0 by omega)
  rw [List.append_nil, List.append_right_inj] at hSame
  exact exists_append_of_byteLength_le hSame (by omega)

/-- A part that a text has. -/
structure Part (s : List Char) (span : Nat × Nat) : Prop where
  order : span.1 ≤ span.2
  start : Boundary s span.1
  stop : Boundary s span.2

theorem part_append (a w b : List Char) :
    Part (a ++ (w ++ b)) (byteLength a, byteLength a + byteLength w) :=
  ⟨Nat.le_add_right _ _, ⟨a, _, rfl, rfl⟩, ⟨a ++ w, b, by simp, by simp⟩⟩

end Text
