import Gateway.Redact.Patterns
import Mathlib.Data.List.Sort

/-! Payment card numbers in a run of digit groups. A part of a text that does
not begin and end between characters is a panic of the program, and a
computation that takes one gives `none`. -/
namespace Gateway.Redact

open Json (Str)
open Text

/-- The bytes at which a part begins and ends. -/
abbrev Span := Nat × Nat

/-- Runs of ASCII digits, with a blank taken to stand after the text. -/
def digitGroups : Nat → Option Nat → Str → List Span
  | _, none, [] => []
  | i, some start, [] => [(start, i)]
  | i, none, c :: rest =>
      digitGroups (i + c.utf8Size) (if c.isDigit then some i else none) rest
  | i, some start, c :: rest =>
      if c.isDigit then digitGroups (i + c.utf8Size) (some start) rest
      else (start, i) :: digitGroups (i + c.utf8Size) none rest

def digitValue (c : Char) : Option Nat := if c.isDigit then some (c.toNat - 48) else none

def luhn (candidate : Str) : Bool :=
  let digits := candidate.filterMap digitValue
  if 13 ≤ digits.length ∧ digits.length ≤ 19 then
    let sum := (digits.reverse.zipIdx.map fun (d, i) =>
      if i % 2 = 1 then
        let doubled := d * 2
        if 9 < doubled then doubled - 9 else doubled
      else d).sum
    sum % 10 = 0
  else false

def shaped : List Nat → Bool
  | [one] => 13 ≤ one && one ≤ 19
  | [4, 6, 4] | [4, 6, 5] => true
  | [4, 4, 4, last] | [4, 4, 4, 4, last] => 1 ≤ last && last ≤ 4
  | _ => false

/-- A window joins the last span when it begins within it. Spans stand with
the last one first. -/
def takeWindow (start stop : Nat) : List Span → List Span
  | (a, b) :: more =>
      if start ≤ b then (a, max b stop) :: more else (start, stop) :: (a, b) :: more
  | [] => [(start, stop)]

/-- The windows that begin at one group, shortest first. -/
def windowsFrom (found : Str) (start : Nat) :
    List Span → Nat → List Nat → List Span → Option (List Span)
  | [], _, _, spans => some spans
  | (a, b) :: more, digits, lengths, spans =>
      let digits := digits + (b - a)
      if 19 < digits then some spans
      else
        let lengths := lengths ++ [b - a]
        if shaped lengths = true ∧ 13 ≤ digits then
          (slice found start b).bind fun window =>
            windowsFrom found start more digits lengths
              (if luhn window then takeWindow start b spans else spans)
        else windowsFrom found start more digits lengths spans

def windows (found : Str) : List Span → List Span → Option (List Span)
  | [], spans => some spans
  | (a, b) :: more, spans =>
      (windowsFrom found a ((a, b) :: more) 0 [] spans).bind (windows found more)

section

variable (U : Unicode) (found : Str)

/-- The whole of a phone number whose first group a span ends in. The span is
read afresh at every group. -/
def widenForward (groups : List Span) (span : Span) : Span :=
  groups.foldl (fun span group =>
    if span.1 < group.1 ∧ group.1 < span.2 then
      match (phone U).findAt U.word found group.1 with
      | some (start, stop) => if start = group.1 then (span.1, max span.2 stop) else span
      | none => span
    else span) span

/-- The whole of a phone number whose last group a span took. -/
def widenBack (span : Span) : Span :=
  ((phone U).findIter U.word found).foldl (fun span phone =>
    if phone.1 < span.1 ∧ span.1 < phone.2 then (phone.1, span.2) else span) span

end

/-- Spans that touch become one. -/
def joinFrom : Span → List Span → List Span
  | earlier, [] => [earlier]
  | earlier, later :: rest =>
      if later.1 ≤ earlier.2 then joinFrom (earlier.1, max earlier.2 later.2) rest
      else earlier :: joinFrom later rest

def joined : List Span → List Span
  | [] => []
  | span :: rest => joinFrom span rest

def spanOrder (a b : Span) : Prop := a.1 < b.1 ∨ (a.1 = b.1 ∧ a.2 ≤ b.2)

instance : DecidableRel spanOrder := fun _ _ => inferInstanceAs (Decidable (_ ∨ _))

def card (U : Unicode) (found : Str) : Option (List Span) :=
  let groups := digitGroups 0 none found
  (windows found groups []).map fun spans =>
    joined ((spans.reverse.map fun span =>
      widenBack U found (widenForward U found groups span)).insertionSort spanOrder)

/-- A text with a marker in the place of each part. -/
def maskFrom (marker text : Str) : Nat → List Span → Option Str
  | kept, [] => slice text kept (byteLength text)
  | kept, (start, stop) :: more => do
      let front ← slice text kept start
      let rest ← maskFrom marker text stop more
      return front ++ (marker ++ rest)

def mask (marker text : Str) (spans : List Span) : Option Str := maskFrom marker text 0 spans

/-! ### Digit groups -/

def NoDigit (s : Str) : Prop := ∀ c ∈ s, c.isDigit = false

def Digits (s : Str) : Prop := ∀ c ∈ s, c.isDigit = true

/-- The spans are those of the maximal runs of digits of a text that begins at
byte `i`, one after the other. -/
def Laid : Nat → Str → List Span → Prop
  | _, s, [] => NoDigit s
  | i, s, (a, b) :: more => ∃ gap ds rest, s = gap ++ (ds ++ rest) ∧ NoDigit gap ∧ Digits ds ∧
      ds ≠ [] ∧ rest.head?.all (fun c => !c.isDigit) = true ∧ a = i + byteLength gap ∧
      b = a + byteLength ds ∧ Laid b rest more

theorem Laid.cons {i : Nat} {c : Char} {s : Str} {groups : List Span} (hc : c.isDigit = false)
    (h : Laid (i + c.utf8Size) s groups) : Laid i (c :: s) groups := by
  have hGap {gap : Str} (hNone : NoDigit gap) : NoDigit (c :: gap) := by
    intro d hd
    rcases List.mem_cons.mp hd with rfl | hd
    · exact hc
    · exact hNone d hd
  cases groups with
  | nil => exact hGap h
  | cons group more =>
      obtain ⟨gap, ds, rest, rfl, hNone, hDigits, hSome, hHead, ha, hb, hMore⟩ := h
      exact ⟨c :: gap, ds, rest, rfl, hGap hNone, hDigits, hSome, hHead,
        by rw [ha, byteLength_cons, Nat.add_assoc], hb, hMore⟩

/-- A run under way goes on in what follows. -/
theorem digitGroups_laid (s : Str) (i : Nat) : Laid i s (digitGroups i none s) ∧
    ∀ ds, ds ≠ [] → Digits ds → ∀ start, i = start + byteLength ds →
      Laid start (ds ++ s) (digitGroups i (some start) s) := by
  induction s generalizing i with
  | nil =>
      refine ⟨by simp [digitGroups, Laid, NoDigit], fun ds hSome hDigits start hi => ?_⟩
      exact ⟨[], ds, [], rfl, by simp [NoDigit], hDigits, hSome, rfl, by simp, hi,
        by simp [Laid, NoDigit]⟩
  | cons c s ih =>
      obtain ⟨ihNone, ihSome⟩ := ih (i + c.utf8Size)
      by_cases hc : c.isDigit = true
      · refine ⟨?_, fun ds hSome hDigits start hi => ?_⟩
        · have h := ihSome [c] (by simp) (by simpa [Digits] using hc) i (by simp)
          simpa [digitGroups, hc] using h
        · have hAll : Digits (ds ++ [c]) := by
            intro d hd
            rcases List.mem_append.mp hd with hd | hd
            · exact hDigits d hd
            · exact List.mem_singleton.mp hd ▸ hc
          have h := ihSome (ds ++ [c]) (by simp) hAll start (by simp [hi, Nat.add_assoc])
          simpa [digitGroups, hc] using h
      · rw [Bool.not_eq_true] at hc
        refine ⟨?_, fun ds hSome hDigits start hi => ?_⟩
        · simpa [digitGroups, hc] using ihNone.cons hc
        · have hGroups : digitGroups i (some start) (c :: s) =
              (start, i) :: digitGroups (i + c.utf8Size) none s := by simp [digitGroups, hc]
          rw [hGroups]
          exact ⟨[], ds, c :: s, rfl, by simp [NoDigit], hDigits, hSome, by simp [hc], by simp, hi,
            ihNone.cons hc⟩

/-- Each digit is one byte and one digit of the check. -/
theorem digits_length {ds : Str} (h : Digits ds) :
    byteLength ds = ds.length ∧ (ds.filterMap digitValue).length = ds.length := by
  induction ds with
  | nil => simp
  | cons c ds ih =>
      have hc := h c (by simp)
      have hSize : c.utf8Size = 1 := by
        rw [Char.utf8Size_eq_one_iff]
        simp only [Char.isDigit, Bool.and_eq_true, decide_eq_true_eq] at hc
        exact UInt32.le_trans hc.2 (by decide)
      obtain ⟨hBytes, hValues⟩ := ih fun d hd => h d (by simp [hd])
      refine ⟨by simp [hSize, hBytes, Nat.add_comm], ?_⟩
      simp [digitValue, hc, hValues]

theorem noDigit_filterMap {s : Str} (h : NoDigit s) : s.filterMap digitValue = [] := by
  rw [List.filterMap_eq_nil_iff]
  intro c hc
  simp [digitValue, h c hc]

/-- Digits that a candidate's check counts. -/
def digitCount (s : Str) : Nat := (s.filterMap digitValue).length

theorem luhn_digitCount {s : Str} (h : luhn s = true) : 13 ≤ digitCount s ∧ digitCount s ≤ 19 := by
  unfold luhn at h
  dsimp only at h
  split_ifs at h with hCount
  exact hCount

theorem digitCount_append (s t : Str) : digitCount (s ++ t) = digitCount s + digitCount t := by
  simp [digitCount]

theorem Laid.le {i : Nat} {s : Str} {groups : List Span} (h : Laid i s groups) :
    ∀ group ∈ groups, i ≤ group.1 ∧ group.1 ≤ group.2 := by
  induction groups generalizing i s with
  | nil => simp
  | cons group more ih =>
      obtain ⟨gap, ds, rest, -, -, -, -, -, ha, hb, hMore⟩ := h
      intro other hOther
      rcases List.mem_cons.mp hOther with rfl | hOther
      · omega
      · have := ih hMore other hOther
        omega

/-! ### Windows -/

def Covers (spans : List Span) (span : Span) : Prop :=
  ∃ s ∈ spans, s.1 ≤ span.1 ∧ span.2 ≤ s.2

/-- Spans found before a group begin before it. -/
def Earlier (found : Str) (start : Nat) (spans : List Span) : Prop :=
  ∀ span ∈ spans, Part found span ∧ span.1 ≤ start

theorem takeWindow_spec {found : Str} {start stop : Nat} {spans : List Span}
    (h : Earlier found start spans) (hPart : Part found (start, stop)) :
    Earlier found start (takeWindow start stop spans) ∧
      Covers (takeWindow start stop spans) (start, stop) ∧
      ∀ span, Covers spans span → Covers (takeWindow start stop spans) span := by
  cases spans with
  | nil =>
      refine ⟨?_, ⟨_, List.mem_singleton_self _, Nat.le_refl _, Nat.le_refl _⟩, ?_⟩
      · intro span hSpan
        obtain rfl := List.mem_singleton.mp hSpan
        exact ⟨hPart, Nat.le_refl _⟩
      · rintro span ⟨s, hs, -⟩
        cases hs
  | cons top more =>
      obtain ⟨a, b⟩ := top
      have hTop := h (a, b) List.mem_cons_self
      have hOrder : a ≤ b := hTop.1.order
      simp only [takeWindow]
      split_ifs with hJoin
      · have hStop : Boundary found (max b stop) := hTop.1.stop.max hPart.stop
        refine ⟨?_, ⟨_, List.mem_cons_self, hTop.2, Nat.le_max_right _ _⟩, ?_⟩
        · intro span hSpan
          rcases List.mem_cons.mp hSpan with rfl | hSpan
          · exact ⟨⟨hOrder.trans (Nat.le_max_left _ _), hTop.1.start, hStop⟩, hTop.2⟩
          · exact h span (List.mem_cons_of_mem _ hSpan)
        · rintro span ⟨s, hs, hFirst, hLast⟩
          rcases List.mem_cons.mp hs with rfl | hs
          · exact ⟨_, List.mem_cons_self, hFirst, hLast.trans (Nat.le_max_left _ _)⟩
          · exact ⟨s, List.mem_cons_of_mem _ hs, hFirst, hLast⟩
      · refine ⟨?_, ⟨_, List.mem_cons_self, Nat.le_refl _, Nat.le_refl _⟩, ?_⟩
        · intro span hSpan
          rcases List.mem_cons.mp hSpan with rfl | hSpan
          · exact ⟨hPart, Nat.le_refl _⟩
          · exact h span hSpan
        · rintro span ⟨s, hs, hBoth⟩
          exact ⟨s, List.mem_cons_of_mem _ hs, hBoth⟩

def lengthsOf (groups : List Span) : List Nat := groups.map fun group => group.2 - group.1

/-- Every window that begins at byte `start` with the groups behind it and has
a card's shape and check is covered. -/
def Finds (found : Str) (start : Nat) (lengths : List Nat) (groups out : List Span) : Prop :=
  ∀ taken last, taken ++ [last] <+: groups →
    shaped (lengths ++ lengthsOf (taken ++ [last])) = true →
    ∀ candidate, slice found start last.2 = some candidate → luhn candidate = true →
      Covers out (start, last.2)

theorem windowsFrom_spec {found front w s : Str} {start digits : Nat} {lengths : List Nat}
    {groups spans : List Span} (hText : found = front ++ (w ++ s))
    (hStart : byteLength front = start) (hLaid : Laid (start + byteLength w) s groups)
    (hDigits : digits = digitCount w) (hSpans : Earlier found start spans) :
    ∃ out, windowsFrom found start groups digits lengths spans = some out ∧
      Earlier found start out ∧ (∀ span, Covers spans span → Covers out span) ∧
      Finds found start lengths groups out := by
  induction groups generalizing w s digits lengths spans with
  | nil =>
      refine ⟨spans, rfl, hSpans, fun _ h => h, ?_⟩
      intro taken last hPrefix
      exact absurd (List.prefix_nil.mp hPrefix) (by simp)
  | cons group more ih =>
      obtain ⟨a, b⟩ := group
      obtain ⟨gap, ds, rest, rfl, hGap, hDs, -, -, ha, hb, hMore⟩ := hLaid
      have hWindow : byteLength (w ++ (gap ++ ds)) + start = b := by
        rw [byteLength_append, byteLength_append]
        omega
      have hHere : found = front ++ ((w ++ (gap ++ ds)) ++ rest) := by simp [hText]
      have hSlice : slice found start b = some (w ++ (gap ++ ds)) :=
        slice_eq_some_iff.mpr ⟨front, rest, hHere, hStart, by omega⟩
      have hCount : digits + (b - a) = digitCount (w ++ (gap ++ ds)) := by
        have hBytes := digits_length hDs
        have hNone : digitCount gap = 0 := by rw [digitCount, noDigit_filterMap hGap]; rfl
        have hAll : digitCount ds = ds.length := hBytes.2
        rw [digitCount_append, digitCount_append, hNone, hAll]
        omega
      have hPart : Part found (start, b) :=
        ⟨by dsimp only; omega, ⟨front, _, hText, hStart⟩,
          ⟨front ++ (w ++ (gap ++ ds)), rest, by simp [hText], by rw [byteLength_append]; omega⟩⟩
      have hLaidMore : Laid (start + byteLength (w ++ (gap ++ ds))) rest more := by
        rwa [Nat.add_comm, hWindow]
      simp only [windowsFrom]
      split_ifs with hOver hShape
      · -- a longer window has more digits still
        refine ⟨spans, rfl, hSpans, fun _ h => h, ?_⟩
        intro taken last hPrefix _ candidate hCandidate hLuhn
        have hLast : b ≤ last.2 := by
          rcases List.mem_cons.mp (hPrefix.subset (List.mem_append_right _
            (List.mem_singleton_self last))) with rfl | hLast
          · exact Nat.le_refl _
          · have := hMore.le last hLast
            omega
        obtain ⟨t, rfl⟩ := slice_extend hSlice hCandidate hLast
        have hMost := (luhn_digitCount hLuhn).2
        rw [digitCount_append] at hMost
        omega
      · obtain ⟨hTaken, hCovered, hKept⟩ := takeWindow_spec hSpans hPart
        rw [hSlice, Option.bind_some]
        have hNext : Earlier found start (if luhn (w ++ (gap ++ ds)) = true then
            takeWindow start b spans else spans) := by
          split_ifs
          · exact hTaken
          · exact hSpans
        obtain ⟨out, hOut, hEarlier, hMono, hFinds⟩ := ih hHere hLaidMore hCount hNext
        refine ⟨out, hOut, hEarlier, fun span hSpan => hMono span ?_, ?_⟩
        · split_ifs
          · exact hKept span hSpan
          · exact hSpan
        · intro taken last hPrefix hShaped candidate hCandidate hLuhn
          cases taken with
          | nil =>
              obtain rfl : last = (a, b) := (List.cons_prefix_cons.mp hPrefix).1
              obtain rfl := Option.some.inj (hSlice.symm.trans hCandidate)
              exact hMono _ (by rw [if_pos hLuhn]; exact hCovered)
          | cons first taken =>
              obtain ⟨rfl, hTail⟩ := List.cons_prefix_cons.mp hPrefix
              exact hFinds taken last hTail (by simpa [lengthsOf] using hShaped) candidate
                hCandidate hLuhn
      · obtain ⟨out, hOut, hEarlier, hMono, hFinds⟩ := ih hHere hLaidMore hCount hSpans
        refine ⟨out, hOut, hEarlier, hMono, ?_⟩
        intro taken last hPrefix hShaped candidate hCandidate hLuhn
        cases taken with
        | nil =>
            obtain rfl : last = (a, b) := (List.cons_prefix_cons.mp hPrefix).1
            obtain rfl := Option.some.inj (hSlice.symm.trans hCandidate)
            have hLeast := (luhn_digitCount hLuhn).1
            exact absurd ⟨by simpa [lengthsOf] using hShaped, by omega⟩ hShape
        | cons first taken =>
            obtain ⟨rfl, hTail⟩ := List.cons_prefix_cons.mp hPrefix
            exact hFinds taken last hTail (by simpa [lengthsOf] using hShaped) candidate
              hCandidate hLuhn

/-- A window of whole groups with a card's shape and check. -/
def CardWindow (found : Str) (groups : List Span) (span : Span) : Prop :=
  ∃ taken last, taken ++ [last] <:+: groups ∧ shaped (lengthsOf (taken ++ [last])) = true ∧
    (taken ++ [last]).head?.map Prod.fst = some span.1 ∧ last.2 = span.2 ∧
    ∃ candidate, slice found span.1 span.2 = some candidate ∧ luhn candidate = true

theorem windows_spec {found front s : Str} {groups spans : List Span} (hText : found = front ++ s)
    (hLaid : Laid (byteLength front) s groups) (hSpans : Earlier found (byteLength front) spans) :
    ∃ out, windows found groups spans = some out ∧ (∀ span ∈ out, Part found span) ∧
      (∀ span, Covers spans span → Covers out span) ∧
      ∀ span, CardWindow found groups span → Covers out span := by
  induction groups generalizing front s spans with
  | nil =>
      refine ⟨spans, rfl, fun span h => (hSpans span h).1, fun _ h => h, ?_⟩
      rintro span ⟨taken, last, hInfix, -⟩
      exact absurd (List.infix_nil.mp hInfix) (by simp)
  | cons group more ih =>
      obtain ⟨a, b⟩ := group
      obtain ⟨gap, ds, rest, rfl, hGap, hDs, hSome, hHead, ha, hb, hMore⟩ := hLaid
      have hFront : byteLength (front ++ gap) = a := by rw [byteLength_append, ha]
      have hFound : found = (front ++ gap) ++ ([] ++ (ds ++ rest)) := by simp [hText]
      have hHere : Laid (a + byteLength []) (ds ++ rest) ((a, b) :: more) :=
        ⟨[], ds, rest, rfl, by simp [NoDigit], hDs, hSome, hHead, by simp, hb, hMore⟩
      have hEarlier : Earlier found a spans := fun span h =>
        ⟨(hSpans span h).1, (hSpans span h).2.trans (by omega)⟩
      obtain ⟨out, hOut, hParts, hMono, hFinds⟩ :=
        @windowsFrom_spec found (front ++ gap) [] (ds ++ rest) a 0 [] ((a, b) :: more) spans hFound
          hFront hHere rfl hEarlier
      have hNext : byteLength (front ++ gap ++ ds) = b := by rw [byteLength_append, hFront, hb]
      obtain ⟨final, hFinal, hAll, hKept, hWindows⟩ :=
        @ih (front ++ gap ++ ds) rest out (by simp [hText])
          (by rwa [hNext])
          (fun span h => ⟨(hParts span h).1, (hParts span h).2.trans (by omega)⟩)
      refine ⟨final, by rw [windows, hOut, Option.bind_some, hFinal], hAll,
        fun span h => hKept span (hMono span h), ?_⟩
      rintro ⟨start, stop⟩ ⟨taken, last, hInfix, hShaped, hStart, rfl, candidate, hSlice, hLuhn⟩
      rcases List.infix_cons_iff.mp hInfix with hPrefix | hInfix
      · have hFirst : start = a := by
          cases taken with
          | nil =>
              obtain rfl : last = (a, b) := (List.cons_prefix_cons.mp hPrefix).1
              exact (Option.some.inj hStart).symm
          | cons first taken =>
              obtain rfl : first = (a, b) := (List.cons_prefix_cons.mp hPrefix).1
              exact (Option.some.inj hStart).symm
        subst hFirst
        exact hKept _ (hFinds taken last hPrefix hShaped candidate hSlice hLuhn)
      · exact hWindows _ ⟨taken, last, hInfix, hShaped, hStart, rfl, candidate, hSlice, hLuhn⟩

/-! ### Widening and joining -/

/-- A part that holds another one. -/
def Widens (found : Str) (span wider : Span) : Prop :=
  Part found wider ∧ wider.1 ≤ span.1 ∧ span.2 ≤ wider.2

theorem Widens.trans {found : Str} {a b c : Span} (hab : Widens found a b)
    (hbc : Widens found b c) : Widens found a c :=
  ⟨hbc.1, hbc.2.1.trans hab.2.1, hab.2.2.trans hbc.2.2⟩

theorem foldl_widens {α : Type} {found : Str} {step : Span → α → Span} (xs : List α)
    (hStep : ∀ span, ∀ x ∈ xs, Part found span → Widens found span (step span x)) {span : Span}
    (hPart : Part found span) : Widens found span (xs.foldl step span) := by
  induction xs generalizing span with
  | nil => exact ⟨hPart, Nat.le_refl _, Nat.le_refl _⟩
  | cons x xs ih =>
      have hFirst := hStep span x List.mem_cons_self hPart
      exact hFirst.trans (ih (fun s y hy => hStep s y (List.mem_cons_of_mem _ hy)) hFirst.1)

section

variable {U : Unicode} {found : Str}

theorem widenForward_widens (groups : List Span) {span : Span} (hPart : Part found span) :
    Widens found span (widenForward U found groups span) := by
  refine foldl_widens groups (fun span group _ hPart => ?_) hPart
  have hSame : Widens found span span := ⟨hPart, Nat.le_refl _, Nat.le_refl _⟩
  split_ifs with hInside
  · cases hPhone : (phone U).findAt U.word found group.1 with
    | none => exact hSame
    | some number =>
        obtain ⟨start, stop⟩ := number
        have hStop : Part found (start, stop) := Pattern.findAt_part hPhone
        dsimp only
        split_ifs
        · exact ⟨⟨hPart.order.trans (Nat.le_max_left _ _), hPart.start, hPart.stop.max hStop.stop⟩,
            Nat.le_refl _, Nat.le_max_left _ _⟩
        · exact hSame
  · exact hSame

theorem widenBack_widens {span : Span} (hPart : Part found span) :
    Widens found span (widenBack U found span) := by
  refine foldl_widens _ (fun span phone hPhone hPart => ?_) hPart
  split_ifs with hInside
  · have hFirst := (Pattern.findIter_part phone hPhone).start
    have hOrder := hPart.order
    exact ⟨⟨by dsimp only; omega, hFirst, hPart.stop⟩, by dsimp only; omega, Nat.le_refl _⟩
  · exact ⟨hPart, Nat.le_refl _, Nat.le_refl _⟩

end

/-- In order, and apart. -/
def Apart (spans : List Span) : Prop := spans.Pairwise fun a b => a.2 < b.1

theorem joinFrom_spec {found : Str} {earlier : Span} {rest : List Span}
    (hSorted : (earlier :: rest).Pairwise fun a b => a.1 ≤ b.1)
    (hParts : ∀ span ∈ earlier :: rest, Part found span) :
    (∀ span ∈ joinFrom earlier rest, Part found span ∧ earlier.1 ≤ span.1) ∧
      Apart (joinFrom earlier rest) ∧
      ∀ span, Covers (earlier :: rest) span → Covers (joinFrom earlier rest) span := by
  induction rest generalizing earlier with
  | nil =>
      refine ⟨?_, List.pairwise_singleton _ _, fun _ h => h⟩
      intro span hSpan
      obtain rfl := List.mem_singleton.mp hSpan
      exact ⟨hParts _ List.mem_cons_self, Nat.le_refl _⟩
  | cons later rest ih =>
      obtain ⟨hFirst, hRest⟩ := List.pairwise_cons.mp hSorted
      have hEarlier := hParts earlier List.mem_cons_self
      have hLater := hParts later (List.mem_cons_of_mem _ List.mem_cons_self)
      have hOrder : earlier.1 ≤ later.1 := hFirst later List.mem_cons_self
      simp only [joinFrom]
      split_ifs with hJoin
      · have hPart : Part found (earlier.1, max earlier.2 later.2) :=
          ⟨hEarlier.order.trans (Nat.le_max_left _ _), hEarlier.start, hEarlier.stop.max hLater.stop⟩
        obtain ⟨hOut, hApart, hCovers⟩ := @ih (earlier.1, max earlier.2 later.2)
          (List.pairwise_cons.mpr ⟨fun span h => hFirst span (List.mem_cons_of_mem _ h),
            (List.pairwise_cons.mp hRest).2⟩)
          (fun span h => (List.mem_cons.mp h).elim (fun e => e ▸ hPart)
            fun h => hParts span (List.mem_cons_of_mem _ (List.mem_cons_of_mem _ h)))
        refine ⟨hOut, hApart, fun span hSpan => hCovers span ?_⟩
        obtain ⟨s, hs, hStart, hLast⟩ := hSpan
        rcases List.mem_cons.mp hs with rfl | hs
        · exact ⟨_, List.mem_cons_self, hStart, hLast.trans (Nat.le_max_left _ _)⟩
        rcases List.mem_cons.mp hs with rfl | hs
        · exact ⟨_, List.mem_cons_self, hOrder.trans hStart, hLast.trans (Nat.le_max_right _ _)⟩
        · exact ⟨s, List.mem_cons_of_mem _ hs, hStart, hLast⟩
      · obtain ⟨hOut, hApart, hCovers⟩ := ih hRest
          fun span h => hParts span (List.mem_cons_of_mem _ h)
        refine ⟨?_, ?_, ?_⟩
        · intro span hSpan
          rcases List.mem_cons.mp hSpan with rfl | hSpan
          · exact ⟨hEarlier, Nat.le_refl _⟩
          · exact ⟨(hOut span hSpan).1, hOrder.trans (hOut span hSpan).2⟩
        · refine List.pairwise_cons.mpr ⟨fun span hSpan => ?_, hApart⟩
          have := (hOut span hSpan).2
          omega
        · rintro span ⟨s, hs, hBoth⟩
          rcases List.mem_cons.mp hs with rfl | hs
          · exact ⟨_, List.mem_cons_self, hBoth⟩
          · obtain ⟨t, ht, hCover⟩ := hCovers span ⟨s, hs, hBoth⟩
            exact ⟨t, List.mem_cons_of_mem _ ht, hCover⟩

/-- The spans found are parts of the text, in order and apart, and no window of
a card's shape and check is left out. -/
theorem card_parts (U : Unicode) (found : Str) : ∃ spans, card U found = some spans ∧
    (∀ span ∈ spans, Part found span) ∧ Apart spans ∧
    ∀ span, CardWindow found (digitGroups 0 none found) span → Covers spans span := by
  obtain ⟨out, hOut, hParts, -, hFinds⟩ := @windows_spec found [] found _ []
    rfl (digitGroups_laid found 0).1 (by simp [Earlier])
  have hWide : ∀ span ∈ out, Widens found span
      (widenBack U found (widenForward U found (digitGroups 0 none found) span)) := by
    intro span hSpan
    have hForward := widenForward_widens (U := U) (digitGroups 0 none found) (hParts span hSpan)
    exact hForward.trans (widenBack_widens hForward.1)
  generalize hSorted : (out.reverse.map fun span => widenBack U found
    (widenForward U found (digitGroups 0 none found) span)).insertionSort spanOrder = sorted
  have hMem : ∀ wider, wider ∈ sorted ↔ ∃ span ∈ out, widenBack U found
      (widenForward U found (digitGroups 0 none found) span) = wider := by
    intro wider
    rw [← hSorted, List.mem_insertionSort]
    simp
  have hOrdered : sorted.Pairwise fun a b => a.1 ≤ b.1 := by
    rw [← hSorted]
    haveI : Std.Total spanOrder := ⟨fun a b => by unfold spanOrder; omega⟩
    haveI : IsTrans Span spanOrder := ⟨fun a b c => by unfold spanOrder; omega⟩
    refine (List.pairwise_insertionSort spanOrder _).imp fun h => ?_
    rcases h with h | h
    · exact Nat.le_of_lt h
    · exact Nat.le_of_eq h.1
  have hSortedParts : ∀ span ∈ sorted, Part found span := by
    intro wider hWider
    obtain ⟨span, hSpan, rfl⟩ := (hMem wider).mp hWider
    exact (hWide span hSpan).1
  have hCard : card U found = some (joined sorted) := by rw [card, hOut, Option.map_some, hSorted]
  refine ⟨joined sorted, hCard, ?_⟩
  have hCovers : ∀ span, CardWindow found (digitGroups 0 none found) span →
      Covers sorted span := by
    intro span hWindow
    obtain ⟨s, hs, hStart, hStop⟩ := hFinds span hWindow
    have hWider := hWide s hs
    exact ⟨_, (hMem _).mpr ⟨s, hs, rfl⟩, hWider.2.1.trans hStart, hStop.trans hWider.2.2⟩
  cases sorted with
  | nil => exact ⟨by simp [joined], List.Pairwise.nil, hCovers⟩
  | cons first rest =>
      obtain ⟨hAll, hApart, hJoin⟩ := joinFrom_spec hOrdered hSortedParts
      exact ⟨fun span h => (hAll span h).1, hApart, fun span h => hJoin span (hCovers span h)⟩

/-! ### Masking -/

/-- Marking spans that are in order and apart replaces just them. -/
theorem maskFrom_pieces {marker text front s : Str} {spans : List Span} (hText : text = front ++ s)
    (hParts : ∀ span ∈ spans, Part text span ∧ byteLength front ≤ span.1) (hApart : Apart spans) :
    ∃ pieces : List Piece, pieces.flatMap Piece.text = s ∧
      foundSpans (byteLength front) pieces = spans ∧
      maskFrom marker text (byteLength front) spans =
        some (pieces.flatMap (Piece.replaced fun _ => marker)) := by
  have hKept : ∀ (gap : Str) (i : Nat) (pieces : List Piece),
      ((gap.map Piece.kept).flatMap Piece.text = gap ∧
        (gap.map Piece.kept).flatMap (Piece.replaced fun _ => marker) = gap) ∧
      foundSpans i (gap.map Piece.kept ++ pieces) = foundSpans (i + byteLength gap) pieces := by
    intro gap
    induction gap with
    | nil => simp
    | cons c gap ih =>
        intro i pieces
        obtain ⟨⟨hTexts, hMarked⟩, hSpans⟩ := ih (i + c.utf8Size) pieces
        refine ⟨⟨?_, ?_⟩, ?_⟩
        · rw [List.map_cons, List.flatMap_cons, hTexts]
          rfl
        · rw [List.map_cons, List.flatMap_cons, hMarked]
          rfl
        · rw [List.map_cons, List.cons_append, foundSpans, hSpans, byteLength_cons, Nat.add_assoc]
  induction spans generalizing front s with
  | nil =>
      have hSlice : slice text (byteLength front) (byteLength text) = some s :=
        slice_eq_some_iff.mpr ⟨front, [], by simp [hText], rfl, by simp [hText]⟩
      obtain ⟨⟨hTexts, hMarked⟩, hSpans⟩ := hKept s (byteLength front) []
      refine ⟨s.map Piece.kept, hTexts, ?_, by rw [maskFrom, hSlice, hMarked]⟩
      simpa [foundSpans] using hSpans
  | cons span more ih =>
      obtain ⟨start, stop⟩ := span
      obtain ⟨hPart, hAfter⟩ := hParts _ List.mem_cons_self
      obtain ⟨hFirst, hMore⟩ := List.pairwise_cons.mp hApart
      obtain ⟨gap, hGap⟩ := exists_slice ⟨front, s, hText, rfl⟩ hPart.start hAfter
      obtain ⟨cut, hCut⟩ := exists_slice hPart.start hPart.stop hPart.order
      obtain ⟨a, b, hA, hAFront, hAStart⟩ := slice_eq_some_iff.mp hGap
      obtain ⟨a', b', hB, hBStart, hBStop⟩ := slice_eq_some_iff.mp hCut
      obtain rfl : a' = a ++ gap := by
        obtain ⟨w, hw⟩ := exists_append_of_byteLength_le (a := a ++ gap) (b := a')
          (by rw [List.append_assoc, ← hA, ← hB]) (by rw [byteLength_append]; omega)
        obtain rfl := eq_nil_of_byteLength (s := w) (by
          have := congrArg byteLength hw
          simp only [byteLength_append] at this
          omega)
        simpa using hw
      obtain rfl : front = a := by
        obtain ⟨w, hw⟩ := exists_append_of_byteLength_le (a := front) (b := a)
          (hText.symm.trans hA) (by omega)
        obtain rfl := eq_nil_of_byteLength (s := w) (by
          have := congrArg byteLength hw
          simp only [byteLength_append] at this
          omega)
        simpa using hw.symm
      have hStop : byteLength (front ++ gap ++ cut) = stop := by
        rw [byteLength_append]
        omega
      obtain ⟨pieces, hPieces, hSpans, hMask⟩ := @ih (front ++ gap ++ cut) b'
        (by simpa using hB)
        (fun other h => ⟨(hParts other (List.mem_cons_of_mem _ h)).1, by
          have := hFirst other h
          omega⟩) hMore
      obtain ⟨⟨hTexts, hMarked⟩, hShift⟩ := hKept gap (byteLength front) (.found cut :: pieces)
      refine ⟨gap.map Piece.kept ++ .found cut :: pieces, ?_, ?_, ?_⟩
      · rw [List.flatMap_append, hTexts, List.flatMap_cons, hPieces]
        have hSame : front ++ s = front ++ (gap ++ (cut ++ b')) := by
          rw [← hText, hB, List.append_assoc]
        exact (List.append_cancel_left hSame).symm
      · rw [hShift, foundSpans, show byteLength front + byteLength gap = start from hAStart,
          hBStop, ← hStop, hSpans, hStop]
      · rw [maskFrom, hGap]
        rw [hStop] at hMask
        simp only [Option.bind_eq_bind, Option.bind_some, hMask, List.flatMap_append, hMarked,
          List.flatMap_cons]
        rfl

theorem mask_pieces {marker text : Str} {spans : List Span}
    (hParts : ∀ span ∈ spans, Part text span) (hApart : Apart spans) :
    ∃ pieces : List Piece, pieces.flatMap Piece.text = text ∧ foundSpans 0 pieces = spans ∧
      mask marker text spans = some (pieces.flatMap (Piece.replaced fun _ => marker)) :=
  @maskFrom_pieces marker text [] text spans rfl (fun span h => ⟨hParts span h, Nat.zero_le _⟩) hApart

/-- The spans lie in the text between characters, in order and apart, so that
masking them replaces just them; and every window of the text's digit groups
with a card's shape and check lies in one of them. -/
theorem card_spans_sound (U : Unicode) (marker found : Str) :
    ∃ groups spans, Laid 0 found groups ∧ card U found = some spans ∧
      (∀ span ∈ spans, Part found span) ∧ Apart spans ∧
      (∃ pieces : List Piece, pieces.flatMap Piece.text = found ∧ foundSpans 0 pieces = spans ∧
        mask marker found spans = some (pieces.flatMap (Piece.replaced fun _ => marker))) ∧
      ∀ span, CardWindow found groups span → Covers spans span := by
  obtain ⟨spans, hCard, hParts, hApart, hCovers⟩ := card_parts U found
  have hLaid := (digitGroups_laid found 0).1
  exact ⟨_, spans, hLaid, hCard, hParts, hApart, mask_pieces hParts hApart, hCovers⟩

/-- A card before a phone number goes with the whole of it. -/
example : card Unicode.ascii "x 5 4111 1111 1111 1111 101 555 0134".toList = some [(4, 36)] := by
  decide +kernel

end Gateway.Redact
