import Gateway.Redact.Card

/-! The rules of the redactor and what they do to a text. -/
namespace Gateway.Redact

open Json Text

/-- Takes personal data out of text. -/
abbrev Redactor := Str → Str

/-- What stands for a value taken out. -/
structure IsMarker (marker : Str) : Prop where
  first : marker.head? = some '['
  last : marker.getLast? = some ']'
  oneLine : '\n' ∉ marker

/-- A rule whose parts can be masked in every text. -/
structure Rule where
  marker : Str
  pattern : Pattern
  accept : Str → Option (List Span)
  isMarker : IsMarker marker
  safe : ∀ found, ∃ spans, accept found = some spans ∧ (∀ span ∈ spans, Part found span) ∧
    Apart spans

namespace Rule

/-- Masking the accepted parts of a match replaces just them. -/
theorem mask_accept (rule : Rule) (found : Str) : ∃ pieces : List Piece,
    pieces.flatMap Piece.text = found ∧ (rule.accept found).bind (mask rule.marker found) =
      some (pieces.flatMap (Piece.replaced fun _ => rule.marker)) := by
  obtain ⟨spans, hAccept, hParts, hApart⟩ := rule.safe found
  obtain ⟨pieces, hPieces, -, hMask⟩ := @mask_pieces rule.marker found spans hParts hApart
  exact ⟨pieces, hPieces, by rw [hAccept, Option.bind_some, hMask]⟩

theorem mask_accept_isSome (rule : Rule) (found : Str) :
    ((rule.accept found).bind (mask rule.marker found)).isSome := by
  obtain ⟨pieces, -, hMask⟩ := rule.mask_accept found
  rw [hMask]
  rfl

/-- A match with the accepted parts masked. -/
def masked (rule : Rule) (found : Str) : Str :=
  ((rule.accept found).bind (mask rule.marker found)).get (rule.mask_accept_isSome found)

theorem masked_eq {rule : Rule} {found out : Str}
    (h : (rule.accept found).bind (mask rule.marker found) = some out) :
    rule.masked found = out := by
  simp [masked, h]

def apply (U : Unicode) (text : Str) (rule : Rule) : Str :=
  if rule.pattern.isMatch U.word text then rule.pattern.replaceAll U.word rule.masked text
  else text

theorem apply_eq (U : Unicode) (text : Str) (rule : Rule) :
    rule.apply U text = rule.pattern.replaceAll U.word rule.masked text := by
  unfold apply
  split_ifs with hMatch
  · rfl
  · rw [Pattern.replaceAll_of_not_isMatch _ (Bool.not_eq_true _ ▸ hMatch)]

end Rule

def always (found : Str) : Option (List Span) := some [(0, byteLength found)]

def wholly (marker : String) (pattern : Pattern) (isMarker : IsMarker marker.toList) : Rule where
  marker := marker.toList
  pattern := pattern
  accept := always
  isMarker := isMarker
  safe found := ⟨_, rfl, by
    simpa using (show Part found (0, byteLength found) from
      ⟨Nat.zero_le _, boundary_zero _, boundary_byteLength _⟩), List.pairwise_singleton _ _⟩

/-- Secrets first: a key can contain what looks like a phone number. The first
identity numbers come before cards: a card beside one cannot take its groups. -/
def rules (U : Unicode) : List Rule :=
  [ wholly "[PRIVATE_KEY]" privateKey ⟨rfl, rfl, by decide⟩,
    wholly "[SECRET]" apiKey ⟨rfl, rfl, by decide⟩,
    wholly "[SECRET]" webToken ⟨rfl, rfl, by decide⟩,
    wholly "[SECRET]" bearer ⟨rfl, rfl, by decide⟩,
    wholly "[EMAIL]" email ⟨rfl, rfl, by decide⟩,
    wholly "[NATIONAL_ID]" (socialSecurity U) ⟨rfl, rfl, by decide⟩,
    { marker := "[CARD]".toList
      pattern := digitRuns U
      accept := card U
      isMarker := ⟨rfl, rfl, by decide⟩
      safe := fun found => (card_parts U found).imp fun _ h => ⟨h.1, h.2.1, h.2.2.1⟩ },
    wholly "[NATIONAL_ID]" (nationalInsurance U) ⟨rfl, rfl, by decide⟩,
    wholly "[PHONE]" (phone U) ⟨rfl, rfl, by decide⟩ ]

/-- The redactor by patterns. -/
def redact (U : Unicode) : Redactor := fun text => (rules U).foldl (Rule.apply U) text

theorem redact_eq (U : Unicode) (text : Str) :
    redact U text = (rules U).foldl (Rule.apply U) text := rfl

/-! ### What a rule leaves -/

/-- A text with some of its parts replaced by markers. -/
inductive Marked : Str → Str → Prop
  | nil : Marked [] []
  | kept (c : Char) {s t : Str} : Marked s t → Marked (c :: s) (c :: t)
  | cut (w : Str) {marker s t : Str} : IsMarker marker → Marked s t → Marked (w ++ s) (marker ++ t)

namespace Marked

theorem append {a b s t : Str} (h : Marked a b) (hRest : Marked s t) : Marked (a ++ s) (b ++ t) := by
  induction h with
  | nil => exact hRest
  | kept c _ ih => exact .kept c ih
  | cut w hMarker _ ih =>
      rw [List.append_assoc, List.append_assoc]
      exact .cut w hMarker ih

theorem of_pieces {pieces : List Piece} {f : Str → Str}
    (h : ∀ m, .found m ∈ pieces → Marked m (f m)) :
    Marked (pieces.flatMap Piece.text) (pieces.flatMap (Piece.replaced f)) := by
  induction pieces with
  | nil => exact .nil
  | cons piece pieces ih =>
      have hRest := ih fun m hm => h m (List.mem_cons_of_mem _ hm)
      cases piece with
      | kept c => exact .kept c hRest
      | found m => exact (h m List.mem_cons_self).append hRest

/-- Markers stand on one line, so no line begins that did not. -/
theorem count_newline {s t : Str} (h : Marked s t) : t.count '\n' ≤ s.count '\n' := by
  induction h with
  | nil => exact Nat.le_refl _
  | kept c _ ih =>
      rw [List.count_cons, List.count_cons]
      omega
  | cut w hMarker _ ih =>
      rw [List.count_append, List.count_append, List.count_eq_zero.mpr hMarker.oneLine]
      omega

theorem eq_nil {s t : Str} (h : Marked s t) (ht : t = []) : s = [] := by
  cases h with
  | nil => rfl
  | kept => cases ht
  | cut w hMarker _ =>
      rw [(List.append_eq_nil_iff.mp ht).1] at hMarker
      exact absurd hMarker.first (by simp)

/-- A text ends as it did or in a bracket. -/
theorem getLast {s t : Str} (h : Marked s t) {c : Char} (hc : c ≠ ']')
    (hLast : t.getLast? = some c) : s.getLast? = some c := by
  induction h with
  | nil => exact hLast
  | @kept d s t hRest ih =>
      cases t with
      | nil =>
          rw [hRest.eq_nil rfl]
          exact hLast
      | cons e t =>
          rw [List.getLast?_cons_cons] at hLast
          have := ih hLast
          cases s with
          | nil => simp at this
          | cons f s => rwa [List.getLast?_cons_cons]
  | @cut w marker s t hMarker hRest ih =>
      rw [List.getLast?_append] at hLast ⊢
      cases hEnd : t.getLast? with
      | some d =>
          rw [hEnd, Option.some_or] at hLast
          rw [ih (hEnd.trans hLast), Option.some_or]
      | none =>
          rw [hEnd, Option.none_or, hMarker.last] at hLast
          exact absurd (Option.some.inj hLast).symm hc

/-- A beginning without a bracket stood there before. -/
theorem beginning {s t w : Str} (h : Marked s t) (hw : '[' ∉ w) (hPrefix : w <+: t) : w <+: s := by
  induction h generalizing w with
  | nil => exact hPrefix
  | kept c _ ih =>
      cases w with
      | nil => exact List.nil_prefix
      | cons d w =>
          obtain ⟨rfl, hTail⟩ := List.cons_prefix_cons.mp hPrefix
          exact List.cons_prefix_cons.mpr
            ⟨rfl, ih (fun h => hw (List.mem_cons_of_mem _ h)) hTail⟩
  | @cut _ marker _ _ hMarker _ _ =>
      cases w with
      | nil => exact List.nil_prefix
      | cons d w =>
          cases marker with
          | nil => exact absurd hMarker.first (by simp)
          | cons e marker =>
              obtain rfl : e = '[' := Option.some.inj hMarker.first
              obtain ⟨rfl, -⟩ := List.cons_prefix_cons.mp hPrefix
              exact absurd List.mem_cons_self hw

end Marked

theorem Rule.masked_marked (rule : Rule) (found : Str) : Marked found (rule.masked found) := by
  obtain ⟨pieces, hPieces, hMask⟩ := rule.mask_accept found
  rw [masked_eq hMask]
  have h := @Marked.of_pieces pieces (fun _ => rule.marker)
    fun m _ => by simpa using Marked.cut m rule.isMarker .nil
  rwa [hPieces] at h

theorem Rule.apply_marked (U : Unicode) (text : Str) (rule : Rule) :
    Marked text (rule.apply U text) := by
  rw [apply_eq]
  have h := @Marked.of_pieces (rule.pattern.scan U.word text) rule.masked
    fun m _ => rule.masked_marked m
  rwa [Pattern.scan_text] at h

/-- What every rule keeps, the redactor keeps. -/
theorem redact_induction {U : Unicode} {P : Str → Str → Prop} (hRefl : ∀ s, P s s)
    (hTrans : ∀ r s t, P r s → P s t → P r t) (hMarked : ∀ s t, Marked s t → P s t) (text : Str) :
    P text (redact U text) := by
  unfold redact
  generalize rules U = steps
  induction steps generalizing text with
  | nil => exact hRefl text
  | cons rule steps ih =>
      exact hTrans _ _ _ (hMarked _ _ (rule.apply_marked U text)) (ih _)

end Gateway.Redact
