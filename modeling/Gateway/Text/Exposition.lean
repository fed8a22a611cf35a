import Gateway.Text.Lines

/-! The text format in which metrics are exposed. A sample stands on a line of its
own, under a name and labels whose values are quoted, and other lines are
comments. -/
namespace Text.Exposition

structure Sample where
  name : List Char
  labels : List (List Char × List Char)
  value : List Char
  deriving DecidableEq

/-! ### Writing -/

def quoteChar (c : Char) : List Char :=
  if c = '\\' then ['\\', '\\'] else if c = '"' then ['\\', '"']
  else if c = '\n' then ['\\', 'n'] else [c]

def quoted (s : List Char) : List Char := s.flatMap quoteChar

def labelText (label : List Char × List Char) : List Char :=
  label.1 ++ '=' :: '"' :: (quoted label.2 ++ ['"'])

def labelsText : List (List Char × List Char) → List Char
  | [] => []
  | [label] => labelText label
  | label :: rest => labelText label ++ ',' :: labelsText rest

def Sample.text (s : Sample) : List Char :=
  s.name ++ '{' :: (labelsText s.labels ++ '}' :: ' ' :: s.value)

inductive Entry where
  | comment (text : List Char)
  | sample (s : Sample)

namespace Entry

def text : Entry → List Char
  | comment text => '#' :: text
  | sample s => s.text

def sample? : Entry → Option Sample
  | comment _ => none
  | sample s => some s

end Entry

/-- An entry ends its line. -/
def written (entries : List Entry) : List Char := entries.flatMap fun e => e.text ++ ['\n']

/-! ### Reading -/

/-- A quoted value up to its closing quote, and what follows it. -/
def readQuoted : List Char → Option (List Char × List Char)
  | [] => none
  | '"' :: rest => some ([], rest)
  | '\\' :: '\\' :: rest => (readQuoted rest).map fun (value, after) => ('\\' :: value, after)
  | '\\' :: '"' :: rest => (readQuoted rest).map fun (value, after) => ('"' :: value, after)
  | '\\' :: 'n' :: rest => (readQuoted rest).map fun (value, after) => ('\n' :: value, after)
  | '\\' :: _ => none
  | c :: rest => (readQuoted rest).map fun (value, after) => (c :: value, after)

def readLabel (s : List Char) : Option ((List Char × List Char) × List Char) :=
  match s.dropWhile (· ≠ '=') with
  | '=' :: '"' :: rest =>
      (readQuoted rest).map fun (value, after) => ((s.takeWhile (· ≠ '='), value), after)
  | _ => none

/-- The labels up to the closing brace, of which there are at most `fuel`. -/
def readLabels : Nat → List Char → Option (List (List Char × List Char) × List Char)
  | 0, _ => none
  | fuel + 1, s =>
      match readLabel s with
      | some (label, '}' :: after) => some ([label], after)
      | some (label, ',' :: after) =>
          (readLabels fuel after).map fun (labels, after) => (label :: labels, after)
      | _ => none

def readSample (line : List Char) : Option Sample :=
  match line.dropWhile (· ≠ '{') with
  | '{' :: rest =>
      match readLabels rest.length rest with
      | some (labels, ' ' :: value) => some ⟨line.takeWhile (· ≠ '{'), labels, value⟩
      | _ => none
  | _ => none

/-- The samples of a text, whose every line is ended. -/
def samplesOf (text : List Char) : Option (List Sample) :=
  if (splitLines '\n' text).2 ≠ [] then none
  else (((splitLines '\n' text).1.map List.dropLast).filter fun line => line.head? ≠ some '#').mapM
    readSample

/-! ### Reading what was written -/

/-- A sample whose parts have no characters that set them off, but for the values
of its labels, which may be anything. -/
structure Sample.Fits (s : Sample) : Prop where
  name : ∀ c ∈ s.name, c ≠ '{' ∧ c ≠ '\n' ∧ c ≠ '#'
  named : s.name ≠ []
  labelled : s.labels ≠ []
  keys : ∀ label ∈ s.labels, ∀ c ∈ label.1, c ≠ '=' ∧ c ≠ '\n'
  value : '\n' ∉ s.value

def Entry.Fits : Entry → Prop
  | comment text => '\n' ∉ text
  | sample s => s.Fits

theorem readQuoted_quoted (s rest : List Char) :
    readQuoted (quoted s ++ '"' :: rest) = some (s, rest) := by
  induction s with
  | nil => rfl
  | cons c s ih =>
      rw [quoted, List.flatMap_cons, List.append_assoc]
      rw [quoted] at ih
      by_cases hBackslash : c = '\\'
      · subst hBackslash
        simp [quoteChar, readQuoted, ih]
      · by_cases hQuote : c = '"'
        · subst hQuote
          simp [quoteChar, readQuoted, ih]
        · by_cases hEnd : c = '\n'
          · subst hEnd
            simp [quoteChar, readQuoted, ih]
          · simp [quoteChar, hBackslash, hQuote, hEnd, readQuoted, ih]

theorem newline_notMem_quoted (s : List Char) : '\n' ∉ quoted s := by
  intro hMem
  obtain ⟨c, -, hc⟩ := List.mem_flatMap.mp hMem
  unfold quoteChar at hc
  split_ifs at hc with hBackslash hQuote hEnd
  · simp at hc
  · simp at hc
  · simp at hc
  · exact hEnd (List.mem_singleton.mp hc).symm

theorem takeWhile_ne {c : Char} {a : List Char} (h : ∀ x ∈ a, x ≠ c) (b : List Char) :
    (a ++ c :: b).takeWhile (· ≠ c) = a := by
  rw [List.takeWhile_append_of_pos (by simpa using h), List.takeWhile_cons_of_neg (by simp),
    List.append_nil]

theorem dropWhile_ne {c : Char} {a : List Char} (h : ∀ x ∈ a, x ≠ c) (b : List Char) :
    (a ++ c :: b).dropWhile (· ≠ c) = c :: b := by
  rw [List.dropWhile_append_of_pos (by simpa using h), List.dropWhile_cons_of_neg (by simp)]

theorem readLabel_labelText {label : List Char × List Char} (h : ∀ c ∈ label.1, c ≠ '=')
    (rest : List Char) : readLabel (labelText label ++ rest) = some (label, rest) := by
  have hText : labelText label ++ rest = label.1 ++ '=' :: '"' :: (quoted label.2 ++ '"' :: rest) := by
    simp [labelText]
  rw [readLabel, hText, dropWhile_ne h, takeWhile_ne h]
  simp [readQuoted_quoted]

theorem readLabels_labelsText {labels : List (List Char × List Char)} (hSome : labels ≠ [])
    (h : ∀ label ∈ labels, ∀ c ∈ label.1, c ≠ '=') {fuel : Nat} (hFuel : labels.length ≤ fuel)
    (rest : List Char) :
    readLabels fuel (labelsText labels ++ '}' :: rest) = some (labels, rest) := by
  induction labels generalizing fuel with
  | nil => exact absurd rfl hSome
  | cons label labels ih =>
      obtain ⟨fuel, rfl⟩ := Nat.exists_eq_succ_of_ne_zero (Nat.ne_of_gt (Nat.lt_of_lt_of_le
        (Nat.succ_pos labels.length) hFuel))
      have hLabel := h label List.mem_cons_self
      cases labels with
      | nil =>
          rw [readLabels, labelsText, readLabel_labelText hLabel]
          simp
      | cons next labels =>
          have hText : labelsText (label :: next :: labels) ++ '}' :: rest =
              labelText label ++ ',' :: (labelsText (next :: labels) ++ '}' :: rest) := by
            simp [labelsText]
          have hRest := ih (List.cons_ne_nil _ _) (fun l hl => h l (List.mem_cons_of_mem _ hl))
            (Nat.le_of_succ_le_succ hFuel)
          rw [hText, readLabels, readLabel_labelText hLabel]
          simp [hRest]

theorem length_labelsText (labels : List (List Char × List Char)) :
    labels.length ≤ (labelsText labels).length := by
  induction labels with
  | nil => exact Nat.zero_le _
  | cons label labels ih =>
      cases labels with
      | nil =>
          simp only [labelsText, labelText, List.length_append, List.length_cons, List.length_nil]
          omega
      | cons next labels =>
          rw [labelsText, List.length_append, List.length_cons, List.length_cons]
          · simp only [labelText, List.length_append, List.length_cons] at ih ⊢
            omega
          · exact List.cons_ne_nil _ _

theorem readSample_text {s : Sample} (h : s.Fits) : readSample s.text = some s := by
  have hName : ∀ c ∈ s.name, c ≠ '{' := fun c hc => (h.name c hc).1
  have hKeys : ∀ label ∈ s.labels, ∀ c ∈ label.1, c ≠ '=' := fun label hl c hc => (h.keys label hl c hc).1
  have hFuel : s.labels.length ≤ (labelsText s.labels ++ '}' :: ' ' :: s.value).length := by
    rw [List.length_append]
    exact Nat.le_add_right_of_le (length_labelsText _)
  have hLabels := readLabels_labelsText h.labelled hKeys hFuel (' ' :: s.value)
  rw [readSample, Sample.text, dropWhile_ne hName, takeWhile_ne hName]
  simp only [hLabels]

theorem newline_notMem_labelsText {labels : List (List Char × List Char)}
    (h : ∀ label ∈ labels, ∀ c ∈ label.1, c ≠ '\n') : '\n' ∉ labelsText labels := by
  have hLabel (label : List Char × List Char) (hKey : ∀ c ∈ label.1, c ≠ '\n') :
      '\n' ∉ labelText label := by
    intro hMem
    rcases List.mem_append.mp hMem with hMem | hMem
    · exact hKey _ hMem rfl
    · simp [newline_notMem_quoted] at hMem
  induction labels with
  | nil => exact List.not_mem_nil
  | cons label labels ih =>
      have hFirst := hLabel label (h label List.mem_cons_self)
      have hRest := ih fun l hl => h l (List.mem_cons_of_mem _ hl)
      cases labels with
      | nil => exact hFirst
      | cons next labels =>
          intro hMem
          rcases List.mem_append.mp hMem with hMem | hMem
          · exact hFirst hMem
          · rcases List.mem_cons.mp hMem with hComma | hMem
            · cases hComma
            · exact hRest hMem

theorem Entry.Fits.line {e : Entry} (h : e.Fits) : '\n' ∉ e.text := by
  cases e with
  | comment text =>
      intro hMem
      rcases List.mem_cons.mp hMem with hHash | hMem
      · cases hHash
      · exact h hMem
  | sample s =>
      have hFits : s.Fits := h
      intro hMem
      rcases List.mem_append.mp hMem with hMem | hMem
      · exact (hFits.name _ hMem).2.1 rfl
      · rcases List.mem_cons.mp hMem with hBrace | hMem
        · cases hBrace
        · rcases List.mem_append.mp hMem with hMem | hMem
          · exact newline_notMem_labelsText (fun l hl c hc => (hFits.keys l hl c hc).2) hMem
          · simp [hFits.value] at hMem

theorem splitLines_line {line : List Char} (h : '\n' ∉ line) (rest : List Char) :
    splitLines '\n' (line ++ '\n' :: rest) =
      ((line ++ ['\n']) :: (splitLines '\n' rest).1, (splitLines '\n' rest).2) := by
  induction line with
  | nil => simp [splitLines]
  | cons c line ih =>
      rw [List.mem_cons, not_or] at h
      rw [List.cons_append, splitLines, ih h.2]
      simp [Ne.symm h.1]

theorem splitLines_written {entries : List Entry} (h : ∀ e ∈ entries, e.Fits) :
    splitLines '\n' (written entries) = (entries.map fun e => e.text ++ ['\n'], []) := by
  induction entries with
  | nil => rfl
  | cons e entries ih =>
      have hText : written (e :: entries) = e.text ++ '\n' :: written entries := by
        simp [written]
      rw [hText, splitLines_line (h e List.mem_cons_self).line,
        ih fun e he => h e (List.mem_cons_of_mem _ he)]
      rfl

theorem head_text {s : Sample} (h : s.Fits) : s.text.head? ≠ some '#' := by
  cases hName : s.name with
  | nil => exact absurd hName h.named
  | cons c name =>
      rw [Sample.text, hName, List.cons_append, List.head?_cons]
      intro hHash
      have hc : c ∈ s.name := hName ▸ List.mem_cons_self
      exact (h.name c hc).2.2 (Option.some.inj hHash)

theorem mapM_readSample {entries : List Entry} (h : ∀ e ∈ entries, e.Fits) :
    ((entries.map Entry.text).filter fun line => line.head? ≠ some '#').mapM readSample =
      some (entries.filterMap Entry.sample?) := by
  induction entries with
  | nil => rfl
  | cons e entries ih =>
      have hRest := ih fun e he => h e (List.mem_cons_of_mem _ he)
      have hFits := h e List.mem_cons_self
      cases e with
      | comment text =>
          rw [List.map_cons, List.filter_cons_of_neg (by simp [Entry.text]), hRest]
          rfl
      | sample s =>
          have hHead : (Entry.sample s).text.head? ≠ some '#' := head_text hFits
          rw [List.map_cons, List.filter_cons_of_pos (by simpa using hHead), List.mapM_cons, hRest]
          show (readSample s.text).bind _ = _
          rw [readSample_text hFits]
          rfl

/-- The samples that were written are read, whatever the values of their labels. -/
theorem samplesOf_written {entries : List Entry} (h : ∀ e ∈ entries, e.Fits) :
    samplesOf (written entries) = some (entries.filterMap Entry.sample?) := by
  have hLines : entries.map (List.dropLast ∘ fun e => e.text ++ ['\n']) = entries.map Entry.text := by
    apply List.map_congr_left
    intro e _
    exact List.dropLast_concat
  unfold samplesOf
  rw [splitLines_written h, if_neg (fun hNe => hNe rfl), List.map_map, hLines]
  exact mapM_readSample h

end Text.Exposition
