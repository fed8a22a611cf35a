import Gateway.Transducer
import Gateway.Wire.Ir

/-! An end that may be held back until a usage report arrives. -/
namespace Gateway.Wire

def StreamEvent.isUsage : StreamEvent → Bool
  | .usageDelta _ => true
  | _ => false

/-- Whether the end waits for a report, has one, and is being held back. -/
structure Gate where
  waits : Bool
  reported : Bool
  held : Bool

namespace Gate

/-- Whether an event lets the end through. -/
def opens (g : Gate) : StreamEvent → Bool
  | .usageDelta _ => g.held
  | .done _ => !g.waits || g.reported
  | _ => false

def after (g : Gate) : StreamEvent → Gate
  | .usageDelta _ => { g with reported := true, held := false }
  | .done _ => { g with held := g.held || (g.waits && !g.reported) }
  | _ => g

/-- Whether a batch lets the end through: a report meets the end, or an end
that does not wait. -/
def ends (g : Gate) (events : List StreamEvent) : Bool :=
  (g.held && events.any StreamEvent.isUsage) ||
    (events.any StreamEvent.isDone && (!g.waits || g.reported || events.any StreamEvent.isUsage))

@[simp] theorem ends_nil (g : Gate) : g.ends [] = false := by simp [ends]

theorem ends_cons (g : Gate) (e : StreamEvent) (events : List StreamEvent) :
    g.ends (e :: events) = (g.opens e || (g.after e).ends events) := by
  obtain ⟨waits, reported, held⟩ := g
  cases e <;>
    simp only [ends, opens, after, List.any_cons, StreamEvent.isUsage, StreamEvent.isDone] <;>
    generalize events.any StreamEvent.isUsage = usage <;>
    generalize events.any StreamEvent.isDone = done <;>
    revert waits reported held usage done <;> decide

/-- A batch in which the machine lets the end through at the gate's word. -/
theorem any_run {β σ : Type} {step : σ → StreamEvent → List β × σ} {terminal : β → Bool}
    {gate : σ → Gate} (hOut : ∀ s e, (step s e).1.any terminal = (gate s).opens e)
    (hGate : ∀ s e, gate (step s e).2 = (gate s).after e) (s : σ) (events : List StreamEvent) :
    (Transducer.run step s events).1.any terminal = (gate s).ends events := by
  induction events generalizing s with
  | nil => simp
  | cons e rest ih => rw [Transducer.run_cons, List.any_append, hOut, ih, hGate, ends_cons]

end Gate

end Gateway.Wire
