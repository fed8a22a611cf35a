import Gateway.Service.RecordedUsage

/-! The response of a streamed body is that of its lines, wherever the body was
cut into chunks. -/
namespace Gateway.Service

open Json Wire

/-- A line's end is no part of its text. -/
theorem lineText_concat (line : List UInt8) : lineText (line ++ [0x0a]) = lineText line := by
  unfold lineText Text.trimEndOf
  rw [Text.fromUtf8Lossy_concat (by decide)]
  exact List.rdropWhile_concat_pos _ _ _ (by decide)

theorem Decoder.decodeBytes_concat (d : Decoder) (line : List UInt8) :
    d.decodeBytes (line ++ [0x0a]) = d.decodeBytes line := by
  unfold Decoder.decodeBytes
  rw [lineText_concat]

/-- An empty line tells nothing. -/
theorem Decoder.decodeBytes_nil (d : Decoder) : d.decodeBytes [] = ([], d) := by
  cases d <;> rfl

theorem Decoder.decodeLines_dropLast (d : Decoder) {lines : List (List UInt8)}
    (hEnds : ∀ line ∈ lines, line.dropLast ++ [0x0a] = line) :
    d.decodeLines (lines.map List.dropLast) = d.decodeLines lines := by
  unfold Decoder.decodeLines
  induction lines generalizing d with
  | nil => rfl
  | cons line rest ih =>
      have hFirst : d.decodeBytes line.dropLast = d.decodeBytes line := by
        rw [← Decoder.decodeBytes_concat, hEnds line List.mem_cons_self]
      rw [List.map_cons, Transducer.run_cons, Transducer.run_cons, hFirst,
        ih _ fun line hLine => hEnds line (List.mem_cons_of_mem _ hLine)]

/-- The events of a body are those of what stands between its newlines, with the
last line whether or not it has one. -/
theorem bodyEvents_eq (upstream : WireFormat) (body : List UInt8) :
    bodyEvents upstream body = ((Decoder.new upstream).decodeLines (body.splitOn 0x0a)).1 := by
  have hLast (d : Decoder) (rest : List UInt8) :
      (d.decodeLines (if rest = [] then [] else [rest])).1 = (d.decodeLines [rest]).1 := by
    unfold Decoder.decodeLines
    split
    · next hNone =>
        rw [hNone, Transducer.run_cons, Decoder.decodeBytes_nil]
        rfl
    · rfl
  have hAppend (d : Decoder) (lines more : List (List UInt8)) : (d.decodeLines (lines ++ more)).1 =
      (d.decodeLines lines).1 ++ ((d.decodeLines lines).2.decodeLines more).1 :=
    congrArg Prod.fst (Transducer.run_append Decoder.decodeBytes d lines more)
  unfold bodyEvents Text.allLines
  rw [Text.splitOn_eq, hAppend, hAppend, hLast,
    Decoder.decodeLines_dropLast _ (Text.splitLines_ends (0x0a : UInt8) body)]

/-- However a body is cut into chunks, its response is made of the events of its
lines. -/
theorem aggregateStream_eq (upstream : WireFormat) (requestId : Str)
    (echo : Option Str × Option Str) (chunks : List (List UInt8)) :
    aggregateStream upstream requestId echo chunks =
      applyCacheEcho ((({} : Aggregator).pushAll
        ((Decoder.new upstream).decodeLines (chunks.flatten.splitOn 0x0a)).1).intoResponse requestId)
          echo := by
  have hFold := Fold.foldl_chunk { decoder := Decoder.new upstream } chunks
  rw [batchesFrom_flatten, bodyEvents_eq] at hFold
  rw [← hFold]
  rfl

end Gateway.Service
