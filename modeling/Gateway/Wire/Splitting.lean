import Gateway.Wire.Common

/-! Cutting a text at a separator, at its beginning and at its end. -/
namespace Gateway.Wire

open Json

theorem splitOnce_eq_some {separator : Char} {s before after : Str} :
    splitOnce separator s = some (before, after) ↔
      s = before ++ separator :: after ∧ separator ∉ before := by
  induction s generalizing before with
  | nil => simp [splitOnce]
  | cons c rest ih =>
      rw [splitOnce]
      split_ifs with hc
      · subst hc
        cases before with
        | nil => simp [eq_comm]
        | cons b before =>
            suffices ¬ (c :: rest = b :: before ++ c :: after ∧ c ∉ b :: before) by simpa using this
            rintro ⟨hText, hNot⟩
            exact hNot ((List.cons.inj hText).1 ▸ List.mem_cons_self)
      · rw [Option.map_eq_some_iff]
        constructor
        · rintro ⟨⟨b, a⟩, hRest, hPair⟩
          cases hPair
          obtain ⟨rfl, hNot⟩ := ih.mp hRest
          exact ⟨rfl, by simp [Ne.symm hc, hNot]⟩
        · rintro ⟨hText, hNot⟩
          cases before with
          | nil => exact absurd (List.cons.inj hText).1 hc
          | cons b before =>
              obtain ⟨rfl, hRest⟩ := List.cons.inj hText
              have hNot : separator ∉ before := fun h => hNot (List.mem_cons_of_mem _ h)
              exact ⟨(before, after), ih.mpr ⟨hRest, hNot⟩, rfl⟩

theorem splitOnce_append {separator : Char} {before : Str} (h : separator ∉ before) (after : Str) :
    splitOnce separator (before ++ separator :: after) = some (before, after) :=
  splitOnce_eq_some.mpr ⟨rfl, h⟩

theorem stripPrefix_eq_some {lead s rest : Str} :
    stripPrefix lead s = some rest ↔ s = lead ++ rest := by
  unfold stripPrefix
  split_ifs with h
  · obtain ⟨t, rfl⟩ := List.isPrefixOf_iff_prefix.mp h
    simp
  · suffices s ≠ lead ++ rest by simpa using this
    rintro rfl
    exact h (List.isPrefixOf_iff_prefix.mpr (List.prefix_append _ _))

@[simp] theorem stripPrefix_append (lead rest : Str) :
    stripPrefix lead (lead ++ rest) = some rest := stripPrefix_eq_some.mpr rfl

theorem stripSuffix_eq_some {tail s rest : Str} :
    stripSuffix tail s = some rest ↔ s = rest ++ tail := by
  unfold stripSuffix
  rw [Option.map_eq_some_iff]
  constructor
  · rintro ⟨t, ht, rfl⟩
    have h := congrArg List.reverse (stripPrefix_eq_some.mp ht)
    simpa using h
  · rintro rfl
    exact ⟨rest.reverse, stripPrefix_eq_some.mpr (by simp), by simp⟩

@[simp] theorem stripSuffix_append (rest tail : Str) :
    stripSuffix tail (rest ++ tail) = some rest := stripSuffix_eq_some.mpr rfl

theorem stripSuffix_eq_none {tail s : Str} : stripSuffix tail s = none ↔ ¬ tail <:+ s := by
  constructor
  · rintro hNone ⟨rest, rfl⟩
    rw [stripSuffix_append] at hNone
    cases hNone
  · intro hNot
    cases hStrip : stripSuffix tail s with
    | none => rfl
    | some rest => exact absurd ⟨rest, (stripSuffix_eq_some.mp hStrip).symm⟩ hNot

end Gateway.Wire
