import Gateway.Wire.Reader

/-! Events as a client's reading takes them, one at a time. A fragment that comes
while no call is being written is a stray one. -/
namespace Gateway.Wire

open Json

/-- Whether a call is still being written after an event. -/
def callOpenAfter (inCall : Bool) : StreamEvent → Bool
  | .toolUseStart .. | .toolUseDelta _ => true
  | .textDelta _ | .thinkingDelta _ | .done _ => false
  | .messageStart _ | .usageDelta _ => inCall

/-- A fragment that comes when no call is being written. -/
def isStray (inCall : Bool) : StreamEvent → Bool
  | .toolUseDelta _ => !inCall
  | _ => false

/-- Every fragment comes while its call is being written: nothing but
bookkeeping events stands between a call's start and its last fragment. -/
def Uninterrupted : Bool → List StreamEvent → Prop
  | _, [] => True
  | inCall, e :: es => isStray inCall e = false ∧ Uninterrupted (callOpenAfter inCall e) es

/-- What an event adds to a reading. A fragment outside a call makes a call of
its own, as a Messages encoder has it. -/
def stepReading (inCall : Bool) (r : Reading) (e : StreamEvent) : Reading where
  text := r.text ++ e.textOf
  thinking := r.thinking ++ e.thinkingOf
  calls :=
    match e with
    | .toolUseStart id name => r.calls ++ [⟨id, name, []⟩]
    | .toolUseDelta fragment =>
        if inCall then extendLast fragment r.calls else r.calls ++ [⟨[], [], fragment⟩]
    | _ => r.calls

/-! ### Counting calls -/

/-- The fragments of a run that come outside a call. -/
def strayFragments : Bool → List StreamEvent → Nat
  | _, [] => 0
  | inCall, e :: es => (isStray inCall e).toNat + strayFragments (callOpenAfter inCall e) es

theorem strayFragments_eq_zero_iff (inCall : Bool) (es : List StreamEvent) :
    strayFragments inCall es = 0 ↔ Uninterrupted inCall es := by
  induction es generalizing inCall with
  | nil => simp [strayFragments, Uninterrupted]
  | cons e es ih => simp [strayFragments, Uninterrupted, ih]

/-- What a Messages client reads from a run of events. -/
def stepReadings : Bool → Reading → List StreamEvent → Reading
  | _, r, [] => r
  | inCall, r, e :: es => stepReadings (callOpenAfter inCall e) (stepReading inCall r e) es

/-- A stray fragment costs a call that the aggregator does not have. -/
theorem stepReadings_calls_length (inCall : Bool) {r : Reading} {tools : List PartialTool}
    {extra : Nat} (h : r.calls.length = tools.length + extra) (es : List StreamEvent) :
    (stepReadings inCall r es).calls.length =
      (es.foldl toolsAfter tools).length + extra + strayFragments inCall es := by
  induction es generalizing inCall r tools extra with
  | nil => simpa [stepReadings, strayFragments] using h
  | cons e es ih =>
      have hStep : (stepReading inCall r e).calls.length =
          (toolsAfter tools e).length + (extra + (isStray inCall e).toNat) := by
        cases e with
        | toolUseDelta fragment => cases inCall <;> (simp [stepReading, toolsAfter, isStray, h]; try omega)
        | toolUseStart id name =>
            simp [stepReading, toolsAfter, isStray, h]
            omega
        | _ => simpa [stepReading, toolsAfter, isStray] using h
      rw [stepReadings, ih _ hStep, List.foldl_cons, strayFragments]
      omega

/-- Without stray fragments the client reads what the aggregator keeps. -/
theorem stepReadings_of_uninterrupted {inCall : Bool} {es : List StreamEvent}
    (h : Uninterrupted inCall es) (r : Reading) :
    stepReadings inCall r es = ⟨r.text ++ es.flatMap StreamEvent.textOf,
      r.thinking ++ es.flatMap StreamEvent.thinkingOf, es.foldl toolsAfter r.calls⟩ := by
  induction es generalizing inCall r with
  | nil => simp [stepReadings]
  | cons e es ih =>
      have hCalls : (stepReading inCall r e).calls = toolsAfter r.calls e := by
        cases e with
        | toolUseDelta fragment =>
            have hOpen : inCall = true := by simpa [isStray] using h.1
            simp [stepReading, toolsAfter, hOpen]
        | _ => rfl
      rw [stepReadings, ih h.2, hCalls]
      simp [stepReading]

end Gateway.Wire
