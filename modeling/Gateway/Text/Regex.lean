import Gateway.Text.Slice
import Mathlib.Data.List.Infix

/-! Patterns with a leftmost-first search: of the matches that begin first, the
one a backtracking search meets first. A pattern matches no empty text, so a
search takes at least one character with every match. -/
namespace Text

inductive Regex where
  | empty
  | one (accepts : Char → Bool)
  | seq (a b : Regex)
  | alt (a b : Regex)
  | star (greedy : Bool) (a : Regex)
  | boundary

/-- Where a search stands: whether the character before is part of a word, and
the text that follows. -/
structure Place where
  afterWord : Bool
  rest : List Char
  deriving DecidableEq

/-- Repetitions of a step, each of which takes something. -/
def repeats (greedy : Bool) (next : Place → List Place) : Nat → Place → List Place
  | 0, p => [p]
  | fuel + 1, p =>
      let more := ((next p).filter fun q => q.rest.length < p.rest.length).flatMap
        (repeats greedy next fuel)
      if greedy then more ++ [p] else p :: more

namespace Regex

def plus (a : Regex) : Regex := seq a (star true a)

def optional (a : Regex) : Regex := alt a empty

def times : Nat → Regex → Regex
  | 0, _ => empty
  | n + 1, a => seq a (times n a)

def atLeast (n : Nat) (a : Regex) : Regex := seq (times n a) (star true a)

/-- Up to `n` more, as many as there are first. -/
def atMost : Nat → Regex → Regex
  | 0, _ => empty
  | n + 1, a => optional (seq a (atMost n a))

def between (low high : Nat) (a : Regex) : Regex := seq (times low a) (atMost (high - low) a)

def literal (s : List Char) : Regex := s.foldr (fun c r => seq (one (· == c)) r) empty

def all (rs : List Regex) : Regex := rs.foldr seq empty

def choice : List Regex → Regex
  | [] => one fun _ => false
  | [r] => r
  | r :: rs => alt r (choice rs)

/-- Whether some match may take nothing. -/
def nullable : Regex → Bool
  | empty | star .. | boundary => true
  | one _ => false
  | seq a b => a.nullable && b.nullable
  | alt a b => a.nullable || b.nullable

/-- Whether a match may take this character. -/
def mayTake (c : Char) : Regex → Bool
  | empty | boundary => false
  | one accepts => accepts c
  | seq a b | alt a b => a.mayTake c || b.mayTake c
  | star _ a => a.mayTake c

/-- Whether a match may end in this character. -/
def mayEnd (c : Char) : Regex → Bool
  | empty | boundary => false
  | one accepts => accepts c
  | seq a b => b.mayEnd c || (b.nullable && a.mayEnd c)
  | alt a b => a.mayEnd c || b.mayEnd c
  | star _ a => a.mayEnd c

section

variable (word : Char → Bool)

/-- Where the matches at a place end, in the order a backtracking search meets
them. -/
def ends : Regex → Place → List Place
  | empty, p => [p]
  | one accepts, p =>
      match p.rest with
      | [] => []
      | c :: rest => if accepts c then [⟨word c, rest⟩] else []
  | seq a b, p => (a.ends p).flatMap b.ends
  | alt a b, p => a.ends p ++ b.ends p
  | star greedy a, p => repeats greedy a.ends p.rest.length p
  | boundary, p => if p.afterWord != p.rest.head?.any word then [p] else []

end

end Regex

/-- A pattern that matches no empty text. -/
structure Pattern where
  regex : Regex
  nonempty : regex.nullable = false := by rfl

/-- A searched text is characters that stand, and matches. -/
inductive Piece where
  | kept (c : Char)
  | found (s : List Char)
  deriving DecidableEq

namespace Piece

def text : Piece → List Char
  | kept c => [c]
  | found s => s

def replaced (f : List Char → List Char) : Piece → List Char
  | kept c => [c]
  | found s => f s

def isFound : Piece → Bool
  | kept _ => false
  | found _ => true

end Piece

namespace Pattern

section

variable (word : Char → Bool) (r : Pattern)

/-- The match at a place that the search takes, as the place after it. -/
def here (p : Place) : Option Place := (r.regex.ends word p).head?

def scanFrom : Nat → Place → List Piece
  | 0, _ => []
  | fuel + 1, p =>
      match r.here word p with
      | some q => .found (p.rest.take (p.rest.length - q.rest.length)) :: scanFrom fuel q
      | none =>
          match p.rest with
          | [] => []
          | c :: rest => .kept c :: scanFrom fuel ⟨word c, rest⟩

/-- Every step takes a character, so the fuel is never short. -/
def scanAt (p : Place) : List Piece := r.scanFrom word (p.rest.length + 1) p

def scan (s : List Char) : List Piece := r.scanAt word ⟨false, s⟩

def isMatch (s : List Char) : Bool := (r.scan word s).any Piece.isFound

def replaceAll (f : List Char → List Char) (s : List Char) : List Char :=
  (r.scan word s).flatMap (Piece.replaced f)

end

end Pattern

/-- The bytes at which the matches begin and end. -/
def foundSpans : Nat → List Piece → List (Nat × Nat)
  | _, [] => []
  | offset, .kept c :: more => foundSpans (offset + c.utf8Size) more
  | offset, .found s :: more =>
      (offset, offset + byteLength s) :: foundSpans (offset + byteLength s) more

namespace Pattern

variable (word : Char → Bool) (r : Pattern)

def findIter (s : List Char) : List (Nat × Nat) := foundSpans 0 (r.scan word s)

/-- The first match that begins at a byte or after it. What stands before the
byte still decides whether a word begins there. -/
def findAt (s : List Char) (start : Nat) : Option (Nat × Nat) :=
  (cutAt s start).bind fun (before, rest) =>
    (foundSpans start (r.scanAt word ⟨before.getLast?.any word, rest⟩)).head?

end Pattern

/-! ### What a match takes -/

/-- The bounds a pattern's shape sets to the text of a match. -/
structure Regex.Takes (r : Regex) (m : List Char) : Prop where
  nullable : m = [] → r.nullable = true
  chars : ∀ c ∈ m, r.mayTake c = true
  last : ∀ c, m.getLast? = some c → r.mayEnd c = true

namespace Regex

variable {word : Char → Bool}

theorem Takes.nil {r : Regex} (h : r.nullable = true) : r.Takes [] :=
  ⟨fun _ => h, by simp, by simp⟩

theorem Takes.seq {a b : Regex} {m n : List Char} (ha : a.Takes m) (hb : b.Takes n) :
    (Regex.seq a b).Takes (m ++ n) := by
  refine ⟨fun h => ?_, fun c hc => ?_, fun c hc => ?_⟩
  · obtain ⟨hm, hn⟩ := List.append_eq_nil_iff.mp h
    simp [Regex.nullable, ha.nullable hm, hb.nullable hn]
  · rcases List.mem_append.mp hc with h | h
    · simp [mayTake, ha.chars c h]
    · simp [mayTake, hb.chars c h]
  · cases hn : n.getLast? with
    | some d =>
        rw [List.getLast?_append, hn, Option.some_or, Option.some.injEq] at hc
        subst hc
        simp [mayEnd, hb.last d hn]
    | none =>
        have hEmpty := List.getLast?_eq_none_iff.mp hn
        rw [hEmpty, List.append_nil] at hc
        simp [mayEnd, ha.last c hc, hb.nullable hEmpty]

theorem Takes.star {a : Regex} {m n : List Char} {greedy : Bool} (ha : a.Takes m)
    (hStar : (Regex.star greedy a).Takes n) : (Regex.star greedy a).Takes (m ++ n) := by
  have h := ha.seq hStar
  refine ⟨fun _ => rfl, fun c hc => ?_, fun c hc => ?_⟩
  · simpa [mayTake] using h.chars c hc
  · simpa [mayEnd, Regex.nullable] using h.last c hc

theorem repeats_takes {a : Regex} {greedy : Bool} {next : Place → List Place}
    (hNext : ∀ p, ∀ q ∈ next p, ∃ m, p.rest = m ++ q.rest ∧ a.Takes m) (fuel : Nat) {p q : Place}
    (h : q ∈ repeats greedy next fuel p) :
    ∃ m, p.rest = m ++ q.rest ∧ (Regex.star greedy a).Takes m := by
  induction fuel generalizing p with
  | zero =>
      obtain rfl := List.mem_singleton.mp h
      exact ⟨[], rfl, .nil rfl⟩
  | succ fuel ih =>
      have hCases : q ∈ ((next p).filter fun q => q.rest.length < p.rest.length).flatMap
          (repeats greedy next fuel) ∨ q = p := by
        cases greedy <;> simpa [repeats, or_comm] using h
      rcases hCases with hMore | rfl
      · obtain ⟨o, ho, hq⟩ := List.mem_flatMap.mp hMore
        obtain ⟨m, hm, hTakes⟩ := hNext p o (List.mem_of_mem_filter ho)
        obtain ⟨n, hn, hRest⟩ := ih hq
        exact ⟨m ++ n, by rw [hm, hn, List.append_assoc], hTakes.star hRest⟩
      · exact ⟨[], rfl, .nil rfl⟩

theorem ends_takes {r : Regex} {p q : Place} (h : q ∈ r.ends word p) :
    ∃ m, p.rest = m ++ q.rest ∧ r.Takes m := by
  induction r generalizing p q with
  | empty =>
      obtain rfl := List.mem_singleton.mp h
      exact ⟨[], rfl, .nil rfl⟩
  | one accepts =>
      obtain ⟨before, rest⟩ := p
      cases rest with
      | nil => simp [ends] at h
      | cons c rest =>
          by_cases hc : accepts c = true
          · obtain rfl : q = ⟨word c, rest⟩ := by simpa [ends, hc] using h
            exact ⟨[c], rfl, by simp, by simp [mayTake, hc], by simp [mayEnd, hc]⟩
          · simp [ends, hc] at h
  | seq a b iha ihb =>
      obtain ⟨o, ho, hq⟩ := List.mem_flatMap.mp h
      obtain ⟨m, hm, ha⟩ := iha ho
      obtain ⟨n, hn, hb⟩ := ihb hq
      exact ⟨m ++ n, by rw [hm, hn, List.append_assoc], ha.seq hb⟩
  | alt a b iha ihb =>
      rcases List.mem_append.mp h with h | h
      · obtain ⟨m, hm, ha⟩ := iha h
        exact ⟨m, hm, fun e => by simp [nullable, ha.nullable e],
          fun c hc => by simp [mayTake, ha.chars c hc], fun c hc => by simp [mayEnd, ha.last c hc]⟩
      · obtain ⟨m, hm, hb⟩ := ihb h
        exact ⟨m, hm, fun e => by simp [nullable, hb.nullable e],
          fun c hc => by simp [mayTake, hb.chars c hc], fun c hc => by simp [mayEnd, hb.last c hc]⟩
  | star greedy a iha => exact repeats_takes (fun _ _ h => iha h) _ h
  | boundary =>
      simp only [ends] at h
      split_ifs at h
      · obtain rfl := List.mem_singleton.mp h
        exact ⟨[], rfl, .nil rfl⟩
      · simp at h

end Regex

namespace Pattern

variable {word : Char → Bool} {r : Pattern}

/-- The match a search takes is text of the pattern's shape, and not empty. -/
theorem here_takes {p q : Place} (h : r.here word p = some q) :
    ∃ m, p.rest = m ++ q.rest ∧ r.regex.Takes m ∧ m ≠ [] := by
  obtain ⟨m, hm, hTakes⟩ := Regex.ends_takes (List.mem_of_mem_head? h)
  refine ⟨m, hm, hTakes, fun hEmpty => ?_⟩
  have hNullable := hTakes.nullable hEmpty
  rw [r.nonempty] at hNullable
  exact Bool.false_ne_true hNullable

theorem here_shorter {p q : Place} (h : r.here word p = some q) :
    q.rest.length < p.rest.length := by
  obtain ⟨m, hm, -, hSome⟩ := here_takes h
  have := List.length_pos_iff.mpr hSome
  rw [hm, List.length_append]
  omega

/-- Fuel beyond what is left of the text changes nothing. -/
theorem scanFrom_eq (n : Nat) {p : Place} (h : p.rest.length < n) :
    r.scanFrom word n p = r.scanAt word p := by
  induction n using Nat.strong_induction_on generalizing p with
  | _ n ih =>
      obtain ⟨n, rfl⟩ : ∃ m, n = m + 1 := ⟨n - 1, by omega⟩
      rw [scanAt]
      simp only [scanFrom]
      cases hHere : r.here word p with
      | some q =>
          have hShort := here_shorter hHere
          dsimp only
          rw [ih n (by omega) (by omega : q.rest.length < n)]
          rcases Nat.lt_or_ge p.rest.length n with hLess | hSame
          · rw [ih p.rest.length (by omega) hShort]
          · rw [show p.rest.length = n by omega, ih n (by omega) (by omega : q.rest.length < n)]
      | none =>
          obtain ⟨before, rest⟩ := p
          cases rest with
          | nil => rfl
          | cons c rest =>
              dsimp only [List.length_cons] at h ⊢
              rw [ih n (by omega) (by simpa using by omega : (⟨word c, rest⟩ : Place).rest.length < n)]
              rcases Nat.lt_or_ge (rest.length + 1) n with hLess | hSame
              · rw [ih (rest.length + 1) (by omega) (by simp)]
              · rw [show rest.length + 1 = n by omega, ih n (by omega) (by simp; omega)]

theorem scanAt_found {p q : Place} (h : r.here word p = some q) :
    ∃ m, p.rest = m ++ q.rest ∧ r.regex.Takes m ∧ m ≠ [] ∧
      r.scanAt word p = .found m :: r.scanAt word q := by
  obtain ⟨m, hm, hTakes, hSome⟩ := here_takes h
  have hText : p.rest.take (p.rest.length - q.rest.length) = m := by
    rw [hm, List.length_append, Nat.add_sub_cancel, List.take_left]
  refine ⟨m, hm, hTakes, hSome, ?_⟩
  rw [scanAt, scanFrom, h]
  dsimp only
  rw [hText, scanFrom_eq _ (here_shorter h)]

theorem scanAt_kept {before : Bool} {c : Char} {rest : List Char}
    (h : r.here word ⟨before, c :: rest⟩ = none) :
    r.scanAt word ⟨before, c :: rest⟩ = .kept c :: r.scanAt word ⟨word c, rest⟩ := by
  rw [scanAt, scanFrom, h]
  rfl

theorem scanAt_nil (before : Bool) : r.scanAt word ⟨before, []⟩ = [] := by
  rw [scanAt, scanFrom]
  cases h : r.here word ⟨before, []⟩ with
  | some q => exact absurd (here_shorter h) (by simp)
  | none => rfl

/-- A scan takes the text apart and loses none of it. Every match is text of
the pattern's shape. -/
theorem scanAt_pieces (p : Place) : (r.scanAt word p).flatMap Piece.text = p.rest ∧
    ∀ m, .found m ∈ r.scanAt word p → r.regex.Takes m ∧ m ≠ [] := by
  induction hLength : p.rest.length using Nat.strong_induction_on generalizing p with
  | _ n ih =>
      cases hHere : r.here word p with
      | some q =>
          obtain ⟨m, hm, hTakes, hSome, hScan⟩ := scanAt_found hHere
          have hShort := here_shorter hHere
          obtain ⟨hText, hFound⟩ := ih _ (hLength ▸ hShort) q rfl
          rw [hScan]
          refine ⟨by rw [List.flatMap_cons, hText, hm]; rfl, fun m' hm' => ?_⟩
          rcases List.mem_cons.mp hm' with h | h
          · obtain rfl := Piece.found.inj h
            exact ⟨hTakes, hSome⟩
          · exact hFound m' h
      | none =>
          obtain ⟨before, rest⟩ := p
          cases rest with
          | nil => simp [scanAt_nil]
          | cons c rest =>
              obtain ⟨hText, hFound⟩ := ih rest.length (by simp [← hLength]) ⟨word c, rest⟩ rfl
              rw [scanAt_kept hHere]
              refine ⟨by rw [List.flatMap_cons, hText]; rfl, fun m' hm' => ?_⟩
              rcases List.mem_cons.mp hm' with h | h
              · exact absurd h (by simp)
              · exact hFound m' h

theorem scan_text (s : List Char) : (r.scan word s).flatMap Piece.text = s :=
  (scanAt_pieces ⟨false, s⟩).1

theorem found_takes {s m : List Char} (h : .found m ∈ r.scan word s) : r.regex.Takes m :=
  ((scanAt_pieces ⟨false, s⟩).2 m h).1

/-- Without a match the text stays. -/
theorem replaceAll_of_not_isMatch {s : List Char} (f : List Char → List Char)
    (h : r.isMatch word s = false) : r.replaceAll word f s = s := by
  have hKept : ∀ piece ∈ r.scan word s, piece.replaced f = piece.text := by
    intro piece hPiece
    cases piece with
    | kept c => rfl
    | found m => exact absurd (List.any_eq_false.mp h _ hPiece) (by simp [Piece.isFound])
  rw [replaceAll, List.flatMap_congr hKept, scan_text]

end Pattern

/-! ### Where matches stand -/

theorem foundSpans_part {before after s : List Char} {pieces : List Piece}
    (h : s = before ++ (pieces.flatMap Piece.text ++ after)) :
    ∀ span ∈ foundSpans (byteLength before) pieces, Part s span := by
  induction pieces generalizing before with
  | nil => simp [foundSpans]
  | cons piece pieces ih =>
      have hNext := @ih (before ++ piece.text) (by simp [h])
      intro span hSpan
      cases piece with
      | kept c =>
          simp only [Piece.text, byteLength_append, byteLength_cons, byteLength_nil] at hNext
          exact hNext span hSpan
      | found m =>
          simp only [Piece.text, byteLength_append] at hNext
          rcases List.mem_cons.mp hSpan with rfl | hSpan
          · rw [h, List.flatMap_cons, List.append_assoc]
            exact part_append before m _
          · exact hNext span hSpan

namespace Pattern

variable {word : Char → Bool} {r : Pattern}

theorem findIter_part {s : List Char} : ∀ span ∈ r.findIter word s, Part s span :=
  @foundSpans_part [] [] s _ (by simp [scan_text])

theorem findAt_part {s : List Char} {start : Nat} {span : Nat × Nat}
    (h : r.findAt word s start = some span) : Part s span := by
  obtain ⟨⟨before, rest⟩, hCut, hFound⟩ := Option.bind_eq_some_iff.mp h
  obtain ⟨rfl, rfl⟩ := cutAt_eq_some_iff.mp hCut
  refine @foundSpans_part before [] _ _ ?_ span (List.mem_of_mem_head? hFound)
  rw [(scanAt_pieces _).1, List.append_nil]

end Pattern

/-! ### A separator

What follows a character outside words does not bear on the matches before it,
and what stands before it does not bear on the matches after it. -/

section

variable (sep : Char) (u : List Char)

/-- The same place in a text that goes on. -/
def Place.followed (p : Place) : Place := ⟨p.afterWord, p.rest ++ sep :: u⟩

/-- Not past the separator. -/
def Before (p : Place) : Bool := u.length + 1 ≤ p.rest.length

variable {sep u}

@[simp] theorem length_followed (p : Place) :
    (p.followed sep u).rest.length = p.rest.length + (u.length + 1) := by
  simp [Place.followed]

@[simp] theorem before_followed (p : Place) : Before u (p.followed sep u) = true := by
  simp [Before]

/-- A search past the separator does not come back. -/
private theorem filter_flatMap_before {next : Place → List Place} (places : List Place)
    (hNext : ∀ p, ∀ q ∈ next p, q.rest.length ≤ p.rest.length) :
    (places.flatMap next).filter (Before u) =
      (places.filter (Before u)).flatMap fun p => (next p).filter (Before u) := by
  induction places with
  | nil => rfl
  | cons p places ih =>
      rw [List.flatMap_cons, List.filter_append, ih, List.filter_cons]
      split_ifs with hBefore
      · rw [List.flatMap_cons]
      · have hNone : (next p).filter (Before u) = [] := by
          rw [List.filter_eq_nil_iff]
          intro q hq hLate
          have := hNext p q hq
          simp only [Before, decide_eq_true_eq] at hBefore hLate
          omega
        rw [hNone, List.nil_append]

private theorem repeats_length_le {next : Place → List Place} {greedy : Bool} {fuel : Nat}
    {p q : Place} (h : q ∈ repeats greedy next fuel p) : q.rest.length ≤ p.rest.length := by
  induction fuel generalizing p with
  | zero => rw [List.mem_singleton.mp h]
  | succ fuel ih =>
      have hCases : q ∈ ((next p).filter fun q => q.rest.length < p.rest.length).flatMap
          (repeats greedy next fuel) ∨ q = p := by
        cases greedy <;> simpa [repeats, or_comm] using h
      rcases hCases with hMore | rfl
      · obtain ⟨o, ho, hq⟩ := List.mem_flatMap.mp hMore
        have hShort := of_decide_eq_true (List.mem_filter.mp ho).2
        have := ih hq
        omega
      · exact Nat.le_refl _

variable {word : Char → Bool}

theorem Regex.ends_length_le {r : Regex} {p q : Place} (h : q ∈ r.ends word p) :
    q.rest.length ≤ p.rest.length := by
  obtain ⟨m, hm, -⟩ := ends_takes h
  rw [hm, List.length_append]
  omega

private theorem repeats_followed {greedy : Bool} {next : Place → List Place}
    (hNext : ∀ p, (next (p.followed sep u)).filter (Before u) =
      (next p).map (Place.followed sep u)) (m n : Nat) {p : Place} (hm : p.rest.length ≤ m)
    (hn : (p.followed sep u).rest.length ≤ n) :
    (repeats greedy next n (p.followed sep u)).filter (Before u) =
      (repeats greedy next m p).map (Place.followed sep u) := by
  induction m generalizing n p with
  | zero =>
      obtain ⟨n, rfl⟩ : ∃ k, n = k + 1 := ⟨n - 1, by rw [length_followed] at hn; omega⟩
      have hNone : (((next (p.followed sep u)).filter fun q =>
          q.rest.length < (p.followed sep u).rest.length).flatMap
            (repeats greedy next n)).filter (Before u) = [] := by
        rw [filter_flatMap_before _ fun _ _ h => repeats_length_le h, List.filter_filter,
          List.flatMap_eq_nil_iff]
        intro q hq
        have hBoth := (List.mem_filter.mp hq).2
        simp only [Before, length_followed, Bool.and_eq_true, decide_eq_true_eq] at hBoth
        omega
      cases greedy
      · simp only [repeats, Bool.false_eq_true, if_false, List.filter_cons, before_followed, if_true,
          List.map_cons, List.map_nil, hNone]
      · simp only [repeats, if_true, List.filter_append, hNone, List.map_cons, List.map_nil]
        simp
  | succ m ih =>
      obtain ⟨n, rfl⟩ : ∃ k, n = k + 1 := ⟨n - 1, by rw [length_followed] at hn; omega⟩
      have hMore : (((next (p.followed sep u)).filter fun q =>
          q.rest.length < (p.followed sep u).rest.length).flatMap
            (repeats greedy next n)).filter (Before u) =
          (((next p).filter fun q => q.rest.length < p.rest.length).flatMap
            (repeats greedy next m)).map (Place.followed sep u) := by
        rw [filter_flatMap_before _ fun _ _ h => repeats_length_le h, List.filter_comm, hNext,
          List.filter_map, List.flatMap_map, List.map_flatMap]
        have hSame : ((fun q : Place => decide (q.rest.length < (p.followed sep u).rest.length)) ∘
            Place.followed sep u) = fun q => decide (q.rest.length < p.rest.length) := by
          funext q
          simp
        rw [hSame]
        apply List.flatMap_congr
        intro q hq
        have hShort := of_decide_eq_true (List.mem_filter.mp hq).2
        exact ih n (by omega) (by rw [length_followed] at hn ⊢; omega)
      cases greedy
      · simp only [repeats, Bool.false_eq_true, if_false, List.filter_cons, before_followed, if_true,
          List.map_cons, hMore]
      · simp only [repeats, if_true, List.filter_append, hMore, List.map_append]
        simp

/-- The ends before a separator are those of the text that stops there. -/
theorem Regex.ends_followed (hSep : word sep = false) (r : Regex) (p : Place) :
    (r.ends word (p.followed sep u)).filter (Before u) =
      (r.ends word p).map (Place.followed sep u) := by
  induction r generalizing p with
  | empty => simp [ends]
  | one accepts =>
      obtain ⟨before, rest⟩ := p
      cases rest with
      | nil => by_cases hc : accepts sep = true <;> simp [ends, Place.followed, Before, hc]
      | cons c rest => by_cases hc : accepts c = true <;> simp [ends, Place.followed, Before, hc]
  | seq a b iha ihb =>
      simp only [ends]
      rw [filter_flatMap_before _ fun _ _ h => ends_length_le h, iha, List.flatMap_map,
        List.map_flatMap]
      exact List.flatMap_congr fun q _ => ihb q
  | alt a b iha ihb => simp only [ends, List.filter_append, List.map_append, iha, ihb]
  | star greedy a iha => exact repeats_followed iha _ _ (Nat.le_refl _) (Nat.le_refl _)
  | boundary =>
      have hHead : (p.followed sep u).rest.head?.any word = p.rest.head?.any word := by
        obtain ⟨before, rest⟩ := p
        cases rest <;> simp [Place.followed, hSep]
      have hAfter : (p.followed sep u).afterWord = p.afterWord := rfl
      simp only [ends, hHead, hAfter]
      split_ifs <;> simp

end

namespace Pattern

variable {word : Char → Bool} {r : Pattern} {sep : Char} {u : List Char}

/-- A search that takes a match before the separator takes it when the text
stops there, and one that takes none there takes none. -/
theorem here_followed (hSep : word sep = false) {p : Place}
    (hBefore : ∀ q, r.here word (p.followed sep u) = some q → Before u q = true) :
    r.here word (p.followed sep u) = (r.here word p).map (Place.followed sep u) := by
  have hEnds := Regex.ends_followed (u := u) hSep r.regex p
  unfold here at hBefore ⊢
  cases hFull : r.regex.ends word (p.followed sep u) with
  | nil =>
      rw [hFull, List.filter_nil, eq_comm, List.map_eq_nil_iff] at hEnds
      rw [hEnds]
      rfl
  | cons q more =>
      rw [hFull] at hBefore hEnds
      rw [List.filter_cons_of_pos (hBefore q rfl)] at hEnds
      rw [← List.head?_map, ← hEnds]
      rfl

/-- A text scans as its two parts around a separator that no match takes. -/
theorem scanAt_followed (hSep : word sep = false) (p : Place)
    (hApart : ∀ m, .found m ∈ r.scanAt word (p.followed sep u) →
      ∀ a b, m = a ++ sep :: b → ¬ b <+: u) :
    r.scanAt word (p.followed sep u) =
      r.scanAt word p ++ .kept sep :: r.scan word u := by
  induction hLength : p.rest.length using Nat.strong_induction_on generalizing p with
  | _ n ih =>
      have hBefore : ∀ q, r.here word (p.followed sep u) = some q → Before u q = true := by
        intro q hq
        obtain ⟨m, hm, -, -, hScan⟩ := scanAt_found hq
        rw [Before, decide_eq_true_eq]
        by_contra hLate
        -- the match goes to the separator at least
        rcases List.append_eq_append_iff.mp (show p.rest ++ sep :: u = m ++ q.rest from hm) with
          ⟨b, rfl, hb⟩ | ⟨b, -, hb⟩
        · cases b with
          | nil =>
              rw [List.nil_append] at hb
              exact hLate (by rw [← hb]; simp)
          | cons c b =>
              obtain ⟨rfl, rfl⟩ := List.cons.inj hb
              exact hApart _ (by rw [hScan]; exact List.mem_cons_self) p.rest b rfl
                (List.prefix_append _ _)
        · exact hLate (by rw [hb]; simp)
      have hHere := here_followed hSep hBefore
      cases hp : r.here word p with
      | some q =>
          rw [hp, Option.map_some] at hHere
          obtain ⟨m, hm, -, -, hScan⟩ := scanAt_found hp
          obtain ⟨m', hm', -, -, hScan'⟩ := scanAt_found hHere
          have hSame : m' = m := by
            have hText : p.rest ++ sep :: u = m' ++ (q.rest ++ sep :: u) := hm'
            rw [hm, List.append_assoc, List.append_left_inj] at hText
            exact hText.symm
          subst hSame
          have hRest := ih _ (hLength ▸ here_shorter hp) q
            (fun o ho => hApart o (hScan' ▸ List.mem_cons_of_mem _ ho)) rfl
          rw [hScan', hScan, hRest, List.cons_append]
      | none =>
          rw [hp, Option.map_none] at hHere
          obtain ⟨before, rest⟩ := p
          cases rest with
          | nil =>
              rw [Place.followed, List.nil_append] at hHere ⊢
              rw [scanAt_kept hHere, scanAt_nil, hSep]
              rfl
          | cons c rest =>
              have hScan' := @scanAt_kept word r before c (rest ++ sep :: u) hHere
              have hRest := ih rest.length (by simp [← hLength]) ⟨word c, rest⟩
                (fun o ho => hApart o (hScan' ▸ List.mem_cons_of_mem _ ho)) rfl
              rw [scanAt_kept hp]
              exact hScan'.trans (congrArg _ hRest)

end Pattern

end Text
