import Mathlib.Data.List.Basic

/-! Machines that answer each input with a list of outputs and a new state.
The rules below carry what a step does to whole runs. -/
namespace Transducer

variable {α β γ σ : Type}

/-- Feed the inputs in order and collect the outputs. -/
def run (step : σ → α → List β × σ) : σ → List α → List β × σ
  | s, [] => ([], s)
  | s, a :: as =>
      let (out, s') := step s a
      let (rest, s'') := run step s' as
      (out ++ rest, s'')

variable (step : σ → α → List β × σ)

@[simp] theorem run_nil (s : σ) : run step s [] = ([], s) := rfl

@[simp] theorem run_cons (s : σ) (a : α) (as : List α) :
    run step s (a :: as) =
      ((step s a).1 ++ (run step (step s a).2 as).1, (run step (step s a).2 as).2) := rfl

theorem run_append (s : σ) (as bs : List α) :
    run step s (as ++ bs) =
      ((run step s as).1 ++ (run step (run step s as).2 bs).1,
        (run step (run step s as).2 bs).2) := by
  induction as generalizing s with
  | nil => simp
  | cons a as ih => simp [ih]

/-- A run over batches is the run over their concatenation. -/
theorem run_flatten (s : σ) (batches : List (List α)) :
    run (run step) s batches = run step s batches.flatten := by
  induction batches generalizing s with
  | nil => rfl
  | cons batch rest ih => simp [run_append, ih]

/-- Each input with the state it meets. -/
def trace : σ → List α → List (σ × α)
  | _, [] => []
  | s, a :: as => (s, a) :: trace (step s a).2 as

@[simp] theorem trace_map_snd (s : σ) (as : List α) : (trace step s as).map Prod.snd = as := by
  induction as generalizing s with
  | nil => rfl
  | cons a as ih => simp [trace, ih]

/-- The outputs of a run are the outputs of its steps. -/
theorem run_fst (s : σ) (as : List α) :
    (run step s as).1 = (trace step s as).flatMap (fun p => (step p.1 p.2).1) := by
  induction as generalizing s with
  | nil => rfl
  | cons a as ih => simp [trace, ih]

@[simp] theorem trace_nil (s : σ) : trace step s [] = [] := rfl

@[simp] theorem trace_cons (s : σ) (a : α) (as : List α) :
    trace step s (a :: as) = (s, a) :: trace step (step s a).2 as := rfl

/-- A change of the state that every step carries along is carried along by a
run. -/
theorem run_map {f : σ → σ} {Allowed : α → Prop}
    (hStep : ∀ s a, Allowed a → step (f s) a = ((step s a).1, f (step s a).2)) (s : σ) {as : List α}
    (hAll : ∀ a ∈ as, Allowed a) :
    run step (f s) as = ((run step s as).1, f (run step s as).2) := by
  induction as generalizing s with
  | nil => rfl
  | cons a as ih =>
      rw [run_cons, run_cons, hStep s a (hAll a (by simp)),
        ih (step s a).2 fun b hb => hAll b (by simp [hb])]

variable {step}

/-- An invariant of a run: of the inputs with the states they met, the outputs
so far and the state. -/
theorem run_along {Inv : List (σ × α) → List β → σ → Prop} {s : σ} (hStart : Inv [] [] s)
    (hStep : ∀ past out s a, Inv past out s →
      Inv (past ++ [(s, a)]) (out ++ (step s a).1) (step s a).2) (as : List α) :
    Inv (trace step s as) (run step s as).1 (run step s as).2 := by
  suffices ∀ past out s, Inv past out s →
      Inv (past ++ trace step s as) (out ++ (run step s as).1) (run step s as).2 from
    this [] [] s hStart
  induction as with
  | nil =>
      intro past out s h
      simpa using h
  | cons a as ih =>
      intro past out s h
      have hRest := ih _ _ _ (hStep past out s a h)
      rwa [List.append_assoc, List.append_assoc] at hRest

end Transducer
