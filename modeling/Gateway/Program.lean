import Mathlib.Data.Multiset.AddSub
import Mathlib.Logic.Relation

/-! Programs that work by queries to a shared state, run alone or in a pool
where the queries of several programs are answered in any order. -/

/-- A program makes a query and goes on from its answer, or stops with a result
or an error. -/
inductive Program (Q : Type) (A : Q → Type) (ε α : Type) where
  | done (a : α)
  | fail (e : ε)
  | query (q : Q) (next : A q → Program Q A ε α)

namespace Program

variable {Q : Type} {A : Q → Type} {ε α β σ : Type}

def bind : Program Q A ε α → (α → Program Q A ε β) → Program Q A ε β
  | done a, f => f a
  | fail e, _ => fail e
  | query q next, f => query q fun a => (next a).bind f

instance : Monad (Program Q A ε) where
  pure := done
  bind := bind

/-- A query on its own. -/
def ask (q : Q) : Program Q A ε (A q) := query q done

/-- The same with an error for a result. -/
def attempt : Program Q A ε α → Program Q A ε (Except ε α)
  | done a => done (.ok a)
  | fail e => done (.error e)
  | query q next => query q fun a => (next a).attempt

@[simp] theorem pure_eq_done (a : α) : (pure a : Program Q A ε α) = done a := rfl

@[simp] theorem done_bind (a : α) (f : α → Program Q A ε β) : done a >>= f = f a := rfl

@[simp] theorem fail_bind (e : ε) (f : α → Program Q A ε β) : fail e >>= f = fail e := rfl

@[simp] theorem query_bind (q : Q) (next : A q → Program Q A ε α) (f : α → Program Q A ε β) :
    query q next >>= f = query q fun a => next a >>= f := rfl

@[simp] theorem ask_bind (q : Q) (f : A q → Program Q A ε β) : ask q >>= f = query q f := rfl

instance : LawfulMonad (Program Q A ε) := LawfulMonad.mk' _
  (fun p => by
    induction p with
    | done a => rfl
    | fail e => rfl
    | query q next ih => exact congrArg (query q) (funext ih))
  (fun _ _ => rfl)
  (fun p f g => by
    induction p with
    | done a => rfl
    | fail e => rfl
    | query q next ih => exact congrArg (query q) (funext ih))

/-! ### A program alone -/

/-- The result with answers from a state that each query may change. -/
def run (answer : (q : Q) → σ → A q × σ) : Program Q A ε α → σ → Except ε α × σ
  | done a, s => (.ok a, s)
  | fail e, s => (.error e, s)
  | query q next, s => (next (answer q s).1).run answer (answer q s).2

theorem run_bind (answer : (q : Q) → σ → A q × σ) (p : Program Q A ε α)
    (f : α → Program Q A ε β) (s : σ) :
    (p >>= f).run answer s =
      match p.run answer s with
      | (.ok a, s') => (f a).run answer s'
      | (.error e, s') => (.error e, s') := by
  induction p generalizing s with
  | done a => rfl
  | fail e => rfl
  | query q next ih => exact ih _ _

theorem run_attempt (answer : (q : Q) → σ → A q × σ) (p : Program Q A ε α) (s : σ) :
    p.attempt.run answer s = (.ok (p.run answer s).1, (p.run answer s).2) := by
  induction p generalizing s with
  | done a => rfl
  | fail e => rfl
  | query q next ih => exact ih _ _

section

variable (may : σ → Q → Prop) (step : (q : Q) → σ → A q → σ → Prop)

/-- Whatever the answers, each query is one that may be made in the state it
meets, and the program stops as asked for. -/
def wp : Program Q A ε α → (Except ε α → σ → Prop) → σ → Prop
  | done a, post, s => post (.ok a) s
  | fail e, post, s => post (.error e) s
  | query q next, post, s => may s q ∧ ∀ a s', step q s a s' → (next a).wp post s'

/-- The result and the state a program may stop with. -/
inductive Runs : Program Q A ε α → σ → Except ε α → σ → Prop where
  | done (a : α) (s : σ) : Runs (done a) s (.ok a) s
  | fail (e : ε) (s : σ) : Runs (fail e) s (.error e) s
  | query {q : Q} {next : A q → Program Q A ε α} {s s' s'' : σ} {a : A q} {r : Except ε α}
      (answered : step q s a s') (rest : Runs (next a) s' r s'') : Runs (query q next) s r s''

variable {may step}

theorem wp_bind {p : Program Q A ε α} {f : α → Program Q A ε β} {post : Except ε β → σ → Prop}
    {s : σ} :
    (p >>= f).wp may step post s ↔
      p.wp may step (fun r s' =>
        match r with
        | .ok a => (f a).wp may step post s'
        | .error e => post (.error e) s') s := by
  induction p generalizing s with
  | done a => exact Iff.rfl
  | fail e => exact Iff.rfl
  | query q next ih =>
      exact and_congr_right fun _ =>
        forall_congr' fun a => forall_congr' fun s' => imp_congr_right fun _ => ih a

theorem wp_attempt {p : Program Q A ε α} {post : Except ε (Except ε α) → σ → Prop} {s : σ} :
    p.attempt.wp may step post s ↔ p.wp may step (fun r s' => post (.ok r) s') s := by
  induction p generalizing s with
  | done a => exact Iff.rfl
  | fail e => exact Iff.rfl
  | query q next ih =>
      exact and_congr_right fun _ =>
        forall_congr' fun a => forall_congr' fun s' => imp_congr_right fun _ => ih a

theorem wp_mono {p : Program Q A ε α} {post post' : Except ε α → σ → Prop} {s : σ}
    (h : p.wp may step post s) (hPost : ∀ r s', post r s' → post' r s') :
    p.wp may step post' s := by
  induction p generalizing s with
  | done a => exact hPost _ _ h
  | fail e => exact hPost _ _ h
  | query q next ih => exact ⟨h.1, fun a s' hStep => ih a (h.2 a s' hStep)⟩

theorem Runs.of_wp {p : Program Q A ε α} {post : Except ε α → σ → Prop} {s s' : σ}
    {r : Except ε α} (run : Runs step p s r s') (h : p.wp may step post s) : post r s' := by
  induction run with
  | done => exact h
  | fail => exact h
  | query answered _ ih => exact ih (h.2 _ _ answered)

/-- A run with fixed answers is one of the runs. -/
theorem run_runs {answer : (q : Q) → σ → A q × σ}
    (hStep : ∀ q s, step q s (answer q s).1 (answer q s).2) (p : Program Q A ε α) (s : σ) :
    Runs step p s (p.run answer s).1 (p.run answer s).2 := by
  induction p generalizing s with
  | done a => exact .done a s
  | fail e => exact .fail e s
  | query q next ih => exact .query (hStep q s) (ih _ _)

end

/-! ### What a program leaves alone -/

section

variable (step : (q : Q) → σ → A q → σ → Prop)

/-- A relation holds between the states before and after, however the program
stops. -/
def Keeps (R : σ → σ → Prop) (p : Program Q A ε α) : Prop :=
  ∀ s, p.wp (fun _ _ => True) step (fun _ s' => R s s') s

variable {step} {R : σ → σ → Prop}

theorem Keeps.runs {p : Program Q A ε α} (h : p.Keeps step R) {s s' : σ} {r : Except ε α}
    (run : Runs step p s r s') : R s s' :=
  run.of_wp (h s)

theorem keeps_done (hRefl : ∀ s, R s s) (a : α) : (done a : Program Q A ε α).Keeps step R :=
  fun s => hRefl s

theorem keeps_fail (hRefl : ∀ s, R s s) (e : ε) : (fail e : Program Q A ε α).Keeps step R :=
  fun s => hRefl s

theorem keeps_query (hTrans : ∀ s s' s'', R s s' → R s' s'' → R s s'') {q : Q}
    {next : A q → Program Q A ε α} (hStep : ∀ s a s', step q s a s' → R s s')
    (hNext : ∀ a, (next a).Keeps step R) : (query q next).Keeps step R :=
  fun s => ⟨trivial, fun a s' h =>
    wp_mono (hNext a s') fun _ _ => hTrans s s' _ (hStep s a s' h)⟩

theorem Keeps.bind (hTrans : ∀ s s' s'', R s s' → R s' s'' → R s s'') {p : Program Q A ε α}
    (h : p.Keeps step R) {f : α → Program Q A ε β} (hf : ∀ a, (f a).Keeps step R) :
    (p >>= f).Keeps step R := by
  intro s
  refine wp_bind.mpr (wp_mono (h s) ?_)
  rintro (e | a) s' hFirst
  · exact hFirst
  · exact wp_mono (hf a s') fun _ _ => hTrans s s' _ hFirst

end

/-! ### Programs in a pool -/

/-- A program in progress, with the queries it has made and their answers. -/
structure Thread (Q : Type) (A : Q → Type) (ε α : Type) where
  seen : List ((q : Q) × A q) := []
  rest : Program Q A ε α

structure Pool (Q : Type) (A : Q → Type) (ε α σ : Type) where
  state : σ
  threads : Multiset (Thread Q A ε α)

section

variable (step : (q : Q) → σ → A q → σ → Prop)
  (Starts : σ → Program Q A ε α → Prop)
  (May : List ((q : Q) × A q) → σ → Q → Prop)

/-- A program starts, has a query answered, or is given up. `May` says of a
query when it is let through, from what its program has seen and the state. -/
inductive Pool.Step : Pool Q A ε α σ → Pool Q A ε α σ → Prop where
  | start {s : σ} {ts : Multiset (Thread Q A ε α)} {p : Program Q A ε α} (starts : Starts s p) :
      Step ⟨s, ts⟩ ⟨s, ⟨[], p⟩ ::ₘ ts⟩
  | answer {s s' : σ} {ts : Multiset (Thread Q A ε α)} {seen : List ((q : Q) × A q)} {q : Q}
      {next : A q → Program Q A ε α} {a : A q} (may : May seen s q) (answered : step q s a s') :
      Step ⟨s, ⟨seen, query q next⟩ ::ₘ ts⟩ ⟨s', ⟨seen ++ [⟨q, a⟩], next a⟩ ::ₘ ts⟩
  | stop {s : σ} {ts : Multiset (Thread Q A ε α)} {t : Thread Q A ε α} :
      Step ⟨s, t ::ₘ ts⟩ ⟨s, ts⟩

/-- Each query is made only after the queries and answers that `ok` asks for. -/
def Wary (ok : List ((q : Q) × A q) → Q → Prop) (seen : List ((q : Q) × A q))
    (p : Program Q A ε α) : Prop :=
  p.wp ok (fun q seen a seen' => seen' = seen ++ [⟨q, a⟩]) (fun _ _ => True) seen

variable {ok : List ((q : Q) × A q) → Q → Prop} {seen : List ((q : Q) × A q)}

@[simp] theorem wary_done (a : α) : (done a : Program Q A ε α).Wary ok seen := trivial

@[simp] theorem wary_fail (e : ε) : (fail e : Program Q A ε α).Wary ok seen := trivial

@[simp] theorem wary_query {q : Q} {next : A q → Program Q A ε α} :
    (query q next).Wary ok seen ↔ ok seen q ∧ ∀ a, (next a).Wary ok (seen ++ [⟨q, a⟩]) :=
  ⟨fun h => ⟨h.1, fun a => h.2 a _ rfl⟩, fun h => ⟨h.1, fun a _ hSeen => hSeen ▸ h.2 a⟩⟩

theorem Wary.bind {p : Program Q A ε α} {f : α → Program Q A ε β} (h : p.Wary ok seen)
    (hf : ∀ a seen, (f a).Wary ok seen) : (p >>= f).Wary ok seen := by
  induction p generalizing seen with
  | done a => exact hf a seen
  | fail e => exact wary_fail e
  | query q next ih =>
      obtain ⟨hQuery, hNext⟩ := wary_query.mp h
      exact wary_query.mpr ⟨hQuery, fun a => ih a (hNext a)⟩

/-- The queries that a program makes on its own are let through. -/
def Meets (answer : (q : Q) → σ → A q × σ) :
    Program Q A ε α → List ((q : Q) × A q) → σ → Prop
  | query q next, seen, s =>
      May seen s q ∧ (next (answer q s).1).Meets answer (seen ++ [⟨q, (answer q s).1⟩]) (answer q s).2
  | _, _, _ => True

variable {step Starts May}

/-- A program with queries of a kind keeps a relation that each of them keeps. -/
theorem Wary.keeps {P : Q → Prop} {R : σ → σ → Prop} (hRefl : ∀ s, R s s)
    (hTrans : ∀ s s' s'', R s s' → R s' s'' → R s s'')
    (hStep : ∀ q s a s', P q → step q s a s' → R s s') {p : Program Q A ε α}
    (h : p.Wary (fun _ q => P q) seen) : p.Keeps step R := by
  induction p generalizing seen with
  | done a => exact keeps_done hRefl a
  | fail e => exact keeps_fail hRefl e
  | query q next ih =>
      obtain ⟨hQuery, hNext⟩ := wary_query.mp h
      exact keeps_query hTrans (fun s a s' => hStep q s a s' hQuery) fun a => ih a (hNext a)

/-- A program on its own is one that the others wait for. -/
theorem Pool.alone {answer : (q : Q) → σ → A q × σ}
    (hStep : ∀ q s, step q s (answer q s).1 (answer q s).2) {p : Program Q A ε α} {s : σ}
    (starts : Starts s p) (hMeets : p.Meets May answer [] s) (ts : Multiset (Thread Q A ε α)) :
    Relation.ReflTransGen (Pool.Step step Starts May) ⟨s, ts⟩ ⟨(p.run answer s).2, ts⟩ := by
  suffices ∀ seen s, p.Meets May answer seen s →
      Relation.ReflTransGen (Pool.Step step Starts May) ⟨s, ⟨seen, p⟩ ::ₘ ts⟩
        ⟨(p.run answer s).2, ts⟩ from
    Relation.ReflTransGen.head (.start starts) (this [] s hMeets)
  clear starts hMeets
  induction p with
  | done a => exact fun _ _ _ => .single .stop
  | fail e => exact fun _ _ _ => .single .stop
  | query q next ih =>
      intro seen s hMeets
      exact .head (.answer hMeets.1 (hStep q s)) (ih _ _ _ hMeets.2)

/-- An invariant that a query keeps, once its program has seen what it must,
holds at every moment of a run. -/
theorem Pool.invariant {ok : List ((q : Q) × A q) → Q → Prop} {Inv : σ → Prop}
    (hStart : ∀ s p, Starts s p → p.Wary ok [])
    (hStep : ∀ seen s q a s', ok seen q → May seen s q → Inv s → step q s a s' → Inv s')
    {pool pool' : Pool Q A ε α σ} (run : Relation.ReflTransGen (Pool.Step step Starts May) pool pool')
    (hInv : Inv pool.state) (hWary : ∀ t ∈ pool.threads, t.rest.Wary ok t.seen) :
    Inv pool'.state ∧ ∀ t ∈ pool'.threads, t.rest.Wary ok t.seen := by
  induction run with
  | refl => exact ⟨hInv, hWary⟩
  | tail _ last ih =>
      obtain ⟨hInv, hWary⟩ := ih
      cases last with
      | start starts =>
          refine ⟨hInv, fun t ht => ?_⟩
          rcases Multiset.mem_cons.mp ht with rfl | ht
          · exact hStart _ _ starts
          · exact hWary t ht
      | answer may answered =>
          obtain ⟨hOk, hNext⟩ := hWary _ (Multiset.mem_cons_self _ _)
          refine ⟨hStep _ _ _ _ _ hOk may hInv answered, fun t ht => ?_⟩
          rcases Multiset.mem_cons.mp ht with rfl | ht
          · exact hNext _ _ rfl
          · exact hWary t (Multiset.mem_cons_of_mem ht)
      | stop => exact ⟨hInv, fun t ht => hWary t (Multiset.mem_cons_of_mem ht)⟩

end

end Program
