import Mathlib.Data.List.DropRight

/-! Cutting a stream into lines. The pieces in which a stream arrives do not
change its lines. -/
namespace Text

variable {α : Type} [DecidableEq α]

/-- The complete lines of a buffer, their ends included, and what follows the
last of them. -/
def splitLines (newline : α) : List α → List (List α) × List α
  | [] => ([], [])
  | b :: bs =>
      let (lines, rest) := splitLines newline bs
      if b = newline then ([b] :: lines, rest)
      else match lines with
        | [] => ([], b :: rest)
        | line :: more => ((b :: line) :: more, rest)

/-- What stays in the buffer is not a line yet. -/
theorem splitLines_rest (newline : α) (buf : List α) :
    splitLines newline (splitLines newline buf).2 = ([], (splitLines newline buf).2) := by
  induction buf with
  | nil => rfl
  | cons b bs ih =>
      simp only [splitLines]
      by_cases hEnd : b = newline
      · simp only [hEnd, if_true, ih]
      · cases hLines : (splitLines newline bs).1 with
        | nil => simp [splitLines, hEnd, ih]
        | cons line more => simp only [hEnd, if_false, ih]

/-- Splitting early leaves exactly what the later bytes complete. -/
theorem splitLines_append (newline : α) (a b : List α) :
    splitLines newline (a ++ b) =
      ((splitLines newline a).1 ++ (splitLines newline ((splitLines newline a).2 ++ b)).1,
        (splitLines newline ((splitLines newline a).2 ++ b)).2) := by
  induction a with
  | nil => simp [splitLines]
  | cons c cs ih =>
      simp only [List.cons_append, splitLines, ih]
      by_cases hEnd : c = newline
      · simp [hEnd]
      · cases hLines : (splitLines newline cs).1 with
        | nil => simp [splitLines, hEnd]
        | cons line more => simp [hEnd]

/-- Every byte is in a line or in the rest, in order. -/
theorem splitLines_flatten (newline : α) (buf : List α) :
    (splitLines newline buf).1.flatten ++ (splitLines newline buf).2 = buf := by
  induction buf with
  | nil => rfl
  | cons b bs ih =>
      simp only [splitLines]
      by_cases hEnd : b = newline
      · simp [hEnd, ih]
      · cases hLines : (splitLines newline bs).1 with
        | nil => simpa [hEnd, hLines] using ih
        | cons line more => simpa [hEnd, hLines] using ih

/-- Complete lines have their ends. -/
theorem splitLines_ends (newline : α) (buf : List α) :
    ∀ line ∈ (splitLines newline buf).1, line.dropLast ++ [newline] = line := by
  induction buf with
  | nil => exact nofun
  | cons b bs ih =>
      simp only [splitLines]
      by_cases hEnd : b = newline
      · rw [if_pos hEnd]
        intro line hLine
        rcases List.mem_cons.mp hLine with rfl | hLater
        · rw [hEnd]
          rfl
        · exact ih line hLater
      · rw [if_neg hEnd]
        cases hLines : (splitLines newline bs).1 with
        | nil => exact nofun
        | cons first more =>
            have hFirst := ih first (hLines ▸ List.mem_cons_self)
            intro line hLine
            rcases List.mem_cons.mp hLine with rfl | hLater
            · cases first with
              | nil => cases hFirst
              | cons c cs => exact congrArg (b :: ·) hFirst
            · exact ih line (hLines ▸ List.mem_cons_of_mem _ hLater)

/-- The lines without their ends, and the rest, are what stands between the
ends. -/
theorem splitOn_eq (newline : α) (buf : List α) : buf.splitOn newline =
    (splitLines newline buf).1.map List.dropLast ++ [(splitLines newline buf).2] := by
  induction buf with
  | nil => rfl
  | cons b bs ih =>
      have hEnds := splitLines_ends newline bs
      rw [List.splitOn, List.splitOnP_cons_eq_if_modifyHead, ← List.splitOn, ih]
      simp only [splitLines]
      by_cases hEnd : b = newline
      · simp [hEnd]
      · cases hLines : (splitLines newline bs).1 with
        | nil => simp [hEnd]
        | cons first more =>
            have hFirst := hEnds first (hLines ▸ List.mem_cons_self)
            cases first with
            | nil => cases hFirst
            | cons c cs => simp [hEnd]

/-- A line without its end. -/
def trimEndOf (ends : List α) (line : List α) : List α := line.rdropWhile (fun c => c ∈ ends)

/-- The lines of a whole stream; one that the end of the stream cuts off
counts. -/
def allLines (newline : α) (stream : List α) : List (List α) :=
  let (lines, rest) := splitLines newline stream
  lines ++ (if rest = [] then [] else [rest])

/-- The lines each piece completes, and the buffer after the last piece. -/
def feedPieces (newline : α) : List α → List (List α) → List (List (List α)) × List α
  | buf, [] => ([], buf)
  | buf, piece :: more =>
      let (lines, rest) := splitLines newline (buf ++ piece)
      let (batches, last) := feedPieces newline rest more
      (lines :: batches, last)

/-- However the stream is cut, the batches are its lines. -/
theorem feedPieces_flatten (newline : α) (buf : List α) (pieces : List (List α))
    (clean : splitLines newline buf = ([], buf)) :
    splitLines newline (buf ++ pieces.flatten) =
      ((feedPieces newline buf pieces).1.flatten, (feedPieces newline buf pieces).2) := by
  induction pieces generalizing buf with
  | nil => simp [feedPieces, clean]
  | cons piece more ih =>
      have hStep := splitLines_append newline (buf ++ piece) more.flatten
      rw [ih _ (splitLines_rest newline (buf ++ piece))] at hStep
      simpa [feedPieces] using hStep

end Text
