import Gateway.Program

/-! Programs at work on one state in any order. Each keeps notes of what it has
been answered, and the others' notes can be consulted on whether it goes on. -/
namespace Program

/-- What an answer does to the state, and to the notes of the program that asked. -/
structure Effects (Q : Type) (A : Q → Type) (ω σ δ : Type) where
  answer : ω → δ → (q : Q) → σ → A q × σ
  note : ω → δ → (q : Q) → σ → δ

structure Task (Q : Type) (A : Q → Type) (ε α δ : Type) where
  notes : δ
  rest : Program Q A ε α

structure Crew (Q : Type) (A : Q → Type) (ε α σ δ : Type) where
  state : σ
  tasks : List (Task Q A ε α δ) := []

section

variable {Q : Type} {A : Q → Type} {ε α ω σ δ : Type} (effects : Effects Q A ω σ δ)

def Crew.started (w : Crew Q A ε α σ δ) (t : Task Q A ε α δ) : Crew Q A ε α σ δ :=
  { w with tasks := w.tasks ++ [t] }

/-- The `i`-th program has a query answered. -/
def Crew.answered (w : Crew Q A ε α σ δ) (env : ω) (i : Nat) (notes : δ) (q : Q)
    (next : A q → Program Q A ε α) : Crew Q A ε α σ δ where
  state := (effects.answer env notes q w.state).2
  tasks := w.tasks.set i
    ⟨effects.note env notes q w.state, next (effects.answer env notes q w.state).1⟩

variable (Starts : Task Q A ε α δ → Prop) (May : ω → Crew Q A ε α σ δ → δ → Q → Prop)

/-- A program starts, or has a query answered. `May` says of a program's notes and
its query when it goes on. -/
inductive Crew.Step : Crew Q A ε α σ δ → Crew Q A ε α σ δ → Prop where
  | start (w : Crew Q A ε α σ δ) {t : Task Q A ε α δ} (starts : Starts t) : Step w (w.started t)
  | answer {w : Crew Q A ε α σ δ} {env : ω} {i : Nat} {notes : δ} {q : Q}
      {next : A q → Program Q A ε α} (turn : w.tasks[i]? = some ⟨notes, query q next⟩)
      (may : May env w notes q) : Step w (w.answered effects env i notes q next)

variable {effects Starts May}

/-- What holds of the state and of each program, if an answer keeps it for the
program that asked and for the others. -/
theorem Crew.invariant (Inv : σ → Prop) (Fit : σ → Task Q A ε α δ → Prop)
    (hStart : ∀ s t, Starts t → Fit s t)
    (hOwn : ∀ env w notes q next, May env w notes q → Inv w.state →
      Fit w.state ⟨notes, query q next⟩ →
        Inv (effects.answer env notes q w.state).2 ∧
          Fit (effects.answer env notes q w.state).2
            ⟨effects.note env notes q w.state, next (effects.answer env notes q w.state).1⟩)
    (hOthers : ∀ env w notes q next, May env w notes q → Inv w.state →
      Fit w.state ⟨notes, query q next⟩ → ∀ t ∈ w.tasks, Fit w.state t →
        Fit (effects.answer env notes q w.state).2 t)
    {w w' : Crew Q A ε α σ δ} (run : Relation.ReflTransGen (Crew.Step effects Starts May) w w')
    (hInv : Inv w.state) (hFit : ∀ t ∈ w.tasks, Fit w.state t) :
    Inv w'.state ∧ ∀ t ∈ w'.tasks, Fit w'.state t := by
  induction run with
  | refl => exact ⟨hInv, hFit⟩
  | tail _ last ih =>
      obtain ⟨hInv, hFit⟩ := ih
      cases last with
      | start starts =>
          refine ⟨hInv, fun t ht => ?_⟩
          rcases List.mem_append.mp ht with ht | ht
          · exact hFit t ht
          · cases List.mem_singleton.mp ht
            exact hStart _ _ starts
      | answer turn may =>
          have hAsks := hFit _ (List.mem_of_getElem? turn)
          obtain ⟨hInv', hNext⟩ := hOwn _ _ _ _ _ may hInv hAsks
          refine ⟨hInv', fun t ht => ?_⟩
          rcases List.mem_or_eq_of_mem_set ht with ht | rfl
          · exact hOthers _ _ _ _ _ may hInv hAsks t ht (hFit t ht)
          · exact hNext

/-! ### By a schedule -/

variable (effects May) (env : ω)

/-- The `i`-th program goes on. -/
def Crew.advance (w : Crew Q A ε α σ δ) (i : Nat) : Crew Q A ε α σ δ :=
  match w.tasks[i]? with
  | some ⟨notes, query q next⟩ => w.answered effects env i notes q next
  | _ => w

def Crew.Lets (w : Crew Q A ε α σ δ) (i : Nat) : Prop :=
  match w.tasks[i]? with
  | some ⟨notes, query q _⟩ => May env w notes q
  | _ => True

/-- The programs that go on by the schedule are ones that may. -/
def Crew.Allows (w : Crew Q A ε α σ δ) : List Nat → Prop
  | [] => True
  | i :: rest => w.Lets May env i ∧ (w.advance effects env i).Allows rest

variable {effects May env}

theorem Crew.step_advance {w : Crew Q A ε α σ δ} {i : Nat} (h : w.Lets May env i) :
    Relation.ReflTransGen (Crew.Step effects Starts May) w (w.advance effects env i) := by
  unfold Crew.advance
  unfold Crew.Lets at h
  split
  · next notes q next hTurn =>
      rw [hTurn] at h
      exact .single (.answer hTurn h)
  · exact .refl

theorem Crew.run_schedule {w : Crew Q A ε α σ δ} {schedule : List Nat}
    (h : w.Allows effects May env schedule) :
    Relation.ReflTransGen (Crew.Step effects Starts May) w
      (schedule.foldl (Crew.advance effects env) w) := by
  induction schedule generalizing w with
  | nil => exact .refl
  | cons i rest ih => exact (Crew.step_advance h.1).trans (ih h.2)

theorem Crew.allows_all (env : ω) (w : Crew Q A ε α σ δ) (schedule : List Nat) :
    w.Allows effects (fun _ _ _ _ => True) env schedule := by
  induction schedule generalizing w with
  | nil => trivial
  | cons i rest ih =>
      refine ⟨?_, ih _⟩
      unfold Crew.Lets
      split <;> trivial

theorem Crew.run_starts {tasks : List (Task Q A ε α δ)} (h : ∀ t ∈ tasks, Starts t)
    (w : Crew Q A ε α σ δ) :
    Relation.ReflTransGen (Crew.Step effects Starts May) w (tasks.foldl Crew.started w) := by
  induction tasks generalizing w with
  | nil => exact .refl
  | cons t rest ih =>
      obtain ⟨hFirst, hRest⟩ := List.forall_mem_cons.mp h
      exact .head (.start w hFirst) (ih hRest _)

end

end Program
