import Gateway.Program

/-! Programs cut off on their way, and programs that share a lock. Whatever the
order in which calls are let in, they leave what they leave one after another. -/
namespace Program

variable {Q : Type} {A : Q → Type} {ε α σ : Type}

/-- What a program that has stopped has come to. -/
def result? : Program Q A ε α → Option (Except ε α)
  | done a => some (.ok a)
  | fail e => some (.error e)
  | query _ _ => none

section

variable (step : (q : Q) → σ → A q → σ → Prop)

/-- A program that has come as far as `rest`. -/
inductive Within : Program Q A ε α → σ → Program Q A ε α → σ → Prop where
  | start (p : Program Q A ε α) (s : σ) : Within p s p s
  | answer {p : Program Q A ε α} {s s' s'' : σ} {q : Q} {next : A q → Program Q A ε α} {a : A q}
      (before : Within p s (query q next) s') (answered : step q s' a s'') :
      Within p s (next a) s''

variable {step} {may : σ → Q → Prop} {post : Except ε α → σ → Prop}

/-- What is asked of a program is asked of what is left of it. -/
theorem Within.wp {p rest : Program Q A ε α} {s s' : σ} (h : Within step p s rest s')
    (hWp : p.wp may step post s) : rest.wp may step post s' := by
  induction h with
  | start => exact hWp
  | answer _ answered ih => exact ih.2 _ _ answered

/-- The rest of a run, from where it was cut off. -/
theorem Within.runs {p rest : Program Q A ε α} {s s' s'' : σ} {r : Except ε α}
    (h : Within step p s rest s') (run : Runs step rest s' r s'') : Runs step p s r s'' := by
  induction h with
  | start => exact run
  | answer _ answered ih => exact ih (.query answered run)

/-- What holds wherever a program asks, and where it stops, holds wherever it is cut
off. -/
theorem Within.always {p rest : Program Q A ε α} {s s' : σ} {P : σ → Prop}
    (h : Within step p s rest s') (hWp : p.wp (fun s _ => P s) step (fun _ s => P s) s) : P s' := by
  have hRest := h.wp hWp
  cases rest with
  | done a => exact hRest
  | fail e => exact hRest
  | query q next => exact hRest.1

theorem Within.runs_of_result {p rest : Program Q A ε α} {s s' : σ} {r : Except ε α}
    (h : Within step p s rest s') (hResult : rest.result? = some r) : Runs step p s r s' := by
  cases rest with
  | done a =>
      cases hResult
      exact h.runs (.done a s')
  | fail e =>
      cases hResult
      exact h.runs (.fail e s')
  | query q next => cases hResult

theorem Within.trans {p p' p'' : Program Q A ε α} {s s' s'' : σ} (h : Within step p s p' s')
    (h' : Within step p' s' p'' s'') : Within step p s p'' s'' := by
  induction h' with
  | start => exact h
  | answer _ answered ih => exact .answer ih answered

/-- A run comes to a stop. -/
theorem Runs.within {p : Program Q A ε α} {s s' : σ} {r : Except ε α} (run : Runs step p s r s') :
    ∃ rest, Within step p s rest s' ∧ rest.result? = some r := by
  induction run with
  | done a s => exact ⟨_, .start _ _, rfl⟩
  | fail e s => exact ⟨_, .start _ _, rfl⟩
  | query answered _ ih =>
      obtain ⟨rest, hWithin, hResult⟩ := ih
      exact ⟨rest, (Within.answer (.start _ _) answered).trans hWithin, hResult⟩

end

/-! ### Calls under a lock -/

/-- Calls that wait for the lock, the one that holds it with what is left of its
program, and those that are over with what they came to. -/
structure Turnstile (κ Q : Type) (A : Q → Type) (ε α σ : Type) where
  state : σ
  waiting : Multiset κ := 0
  inside : Option (κ × Program Q A ε α) := none
  ended : List (κ × Except ε α) := []

section

variable {κ : Type} (step : (q : Q) → σ → A q → σ → Prop) (body : κ → Program Q A ε α)

inductive Turnstile.Step : Turnstile κ Q A ε α σ → Turnstile κ Q A ε α σ → Prop where
  | arrive (w : Turnstile κ Q A ε α σ) (k : κ) : Step w { w with waiting := k ::ₘ w.waiting }
  | enter {s : σ} {ks : Multiset κ} {k : κ} {ended : List (κ × Except ε α)} :
      Step ⟨s, k ::ₘ ks, none, ended⟩ ⟨s, ks, some (k, body k), ended⟩
  | answer {s s' : σ} {ks : Multiset κ} {k : κ} {q : Q} {next : A q → Program Q A ε α} {a : A q}
      {ended : List (κ × Except ε α)} (answered : step q s a s') :
      Step ⟨s, ks, some (k, query q next), ended⟩ ⟨s', ks, some (k, next a), ended⟩
  | leave {s : σ} {ks : Multiset κ} {k : κ} {p : Program Q A ε α} {r : Except ε α}
      {ended : List (κ × Except ε α)} (result : p.result? = some r) :
      Step ⟨s, ks, some (k, p), ended⟩ ⟨s, ks, none, ended ++ [(k, r)]⟩

/-- Calls one after another. -/
inductive Serial (s : σ) : List (κ × Except ε α) → σ → Prop where
  | none : Serial s [] s
  | next {calls : List (κ × Except ε α)} {s' s'' : σ} {k : κ} {r : Except ε α}
      (before : Serial s calls s') (run : Runs step (body k) s' r s'') :
      Serial s (calls ++ [(k, r)]) s''

/-- Where the state stands with the call that is inside, if one is. -/
def Turnstile.Stands (before : σ) (w : Turnstile κ Q A ε α σ) : Prop :=
  match w.inside with
  | none => w.state = before
  | some (k, rest) => Within step (body k) before rest w.state

variable {step body}

/-- The calls that are over have run one after another, in the order in which they
left, and the one inside runs from where they left off. -/
theorem Turnstile.serial {s : σ} {w : Turnstile κ Q A ε α σ}
    (run : Relation.ReflTransGen (Turnstile.Step step body) { state := s } w) :
    ∃ before, Serial step body s w.ended before ∧ w.Stands step body before := by
  induction run with
  | refl => exact ⟨s, .none, rfl⟩
  | tail _ last ih =>
      obtain ⟨before, hSerial, hStands⟩ := ih
      cases last with
      | arrive w k => exact ⟨before, hSerial, hStands⟩
      | enter =>
          cases hStands
          exact ⟨_, hSerial, .start _ _⟩
      | answer answered => exact ⟨before, hSerial, hStands.answer answered⟩
      | leave result => exact ⟨_, hSerial.next (hStands.runs_of_result result), rfl⟩

/-- The call inside may go on to its end. -/
theorem Turnstile.finish {p : Program Q A ε α} {s s' : σ} {r : Except ε α} {ks : Multiset κ} {k : κ}
    {ended : List (κ × Except ε α)} (run : Runs step p s r s') :
    Relation.ReflTransGen (Turnstile.Step step body) ⟨s, ks, some (k, p), ended⟩
      ⟨s', ks, none, ended ++ [(k, r)]⟩ := by
  induction run with
  | done a s => exact .single (.leave rfl)
  | fail e s => exact .single (.leave rfl)
  | query answered _ ih => exact .head (.answer answered) ih

/-- Nothing keeps a call from running where no other is inside. -/
theorem Turnstile.alone {s s' : σ} {r : Except ε α} {ks : Multiset κ} {k : κ}
    {ended : List (κ × Except ε α)} (run : Runs step (body k) s r s') :
    Relation.ReflTransGen (Turnstile.Step step body) ⟨s, ks, none, ended⟩
      ⟨s', ks, none, ended ++ [(k, r)]⟩ :=
  .head (.arrive _ k) (.head .enter (finish run))

/-- What each call keeps, from the calls before it. -/
theorem Serial.invariant {Inv : List (κ × Except ε α) → σ → Prop} {s s' : σ}
    {calls : List (κ × Except ε α)} (h : Serial step body s calls s') (hStart : Inv [] s)
    (hCall : ∀ calls s' k r s'', Inv calls s' → Runs step (body k) s' r s'' →
      Inv (calls ++ [(k, r)]) s'') : Inv calls s' := by
  induction h with
  | none => exact hStart
  | next _ run ih => exact hCall _ _ _ _ _ ih run

end

end Program
