import Gateway.Service.Terminal.Gate

/-! Answers that a decoder has brought to their end, and the gate that an encoder
may hold their end behind. -/
namespace Gateway.Wire

/-- The answer ends once, and then no more than reports follow. -/
structure Ended (events : List StreamEvent) : Prop where
  split : ∃ body reason reports, events = body ++ .done reason :: reports ∧
    (∀ e ∈ body, e.isDone = false) ∧ ∀ e ∈ reports, e.isUsage = true

def StreamEvent.isStart : StreamEvent → Bool
  | .messageStart _ => true
  | _ => false

namespace Gate

variable {g : Gate}

theorem run_gate {β σ : Type} {step : σ → StreamEvent → List β × σ} {gate : σ → Gate}
    (hGate : ∀ s e, gate (step s e).2 = (gate s).after e) (s : σ) (events : List StreamEvent) :
    gate (Transducer.run step s events).2 = events.foldl after (gate s) := by
  induction events generalizing s with
  | nil => rfl
  | cons e rest ih =>
      rw [Transducer.run_cons, List.foldl_cons, ← hGate]
      exact ih (step s e).2

/-- Before the end nothing is held back that was not, or is let out. -/
theorem held_after {e : StreamEvent} (hHeld : g.held = false) (hDone : e.isDone = false) :
    (g.after e).held = false := by
  cases e with
  | done reason => cases hDone
  | usageDelta usage => rfl
  | _ => exact hHeld

/-- Before the end the gate only learns of reports. -/
theorem foldl_body {body : List StreamEvent} (hHeld : g.held = false)
    (hBody : ∀ e ∈ body, e.isDone = false) :
    body.foldl after g = { g with reported := g.reported || body.any StreamEvent.isUsage } := by
  induction body generalizing g with
  | nil => simp
  | cons e rest ih =>
      have hFirst := hBody e List.mem_cons_self
      rw [List.foldl_cons, List.any_cons,
        ih (held_after hHeld hFirst) fun e he => hBody e (List.mem_cons_of_mem _ he)]
      cases e with
      | usageDelta usage => simp [after, StreamEvent.isUsage, hHeld]
      | done reason => cases hFirst
      | _ => rfl

end Gate

/-! ### A sample -/

/-- An answer in four batches, whose report comes after its end. -/
def sampleBatches : List (List StreamEvent) :=
  [[.messageStart "m".toList, .thinkingDelta "a".toList],
    [.textDelta "b".toList, .textDelta "c".toList, .toolUseStart "call".toList "f".toList],
    [.toolUseDelta "\x7b".toList, .toolUseDelta "\x7d".toList, .done .toolUse],
    [.usageDelta { inputTokens := 3, outputTokens := 5 }]]

theorem sampleBatches_ended : Ended sampleBatches.flatten :=
  ⟨sampleBatches.flatten.take 7, .toolUse, sampleBatches.flatten.drop 8, rfl, by decide, by decide⟩

end Gateway.Wire
