import Gateway.Exclusion

/-! Programs beside others: what each was told of a state that the others change too,
and a program that goes its round again and again beside calls that come and go,
relying on what no call changes. -/
namespace Program

variable {Q : Type} {A : Q → Type} {ε α β σ : Type}

/-! ### What programs were told -/

section

variable {step : (q : Q) → σ → A q → σ → Prop} {Starts : σ → Program Q A ε α → Prop}
  {May : List ((q : Q) × A q) → σ → Q → Prop} {ok : List ((q : Q) × A q) → Q → Prop}

/-- What is asked of a program's queries at any time is asked of them after others. -/
theorem Wary.after {P : Q → Prop} {seen before : List ((q : Q) × A q)}
    (hP : ∀ more q, P q → ok (seen ++ more) q) {p : Program Q A ε α}
    (h : p.Wary (fun _ q => P q) before) : p.Wary ok seen := by
  induction p generalizing seen before with
  | done a => exact wary_done a
  | fail e => exact wary_fail e
  | query q next ih =>
      obtain ⟨hQuery, hNext⟩ := wary_query.mp h
      refine wary_query.mpr ⟨?_, fun a => ih a ?_ (hNext a)⟩
      · simpa using hP [] q hQuery
      · intro more q' hq'
        simpa using hP (⟨q, a⟩ :: more) q' hq'

/-- A query that keeps the invariant, where its program was told what stands, tells it what
stands. So the invariant and all that was told stand at every moment of a run. -/
theorem Pool.invariant_told {Inv : σ → Prop} {Told : (q : Q) × A q → Prop}
    (hStart : ∀ s p, Starts s p → p.Wary ok [])
    (hStep : ∀ seen s q a s', ok seen q → May seen s q → (∀ e ∈ seen, Told e) → Inv s →
      step q s a s' → Inv s' ∧ Told ⟨q, a⟩)
    {pool pool' : Pool Q A ε α σ} (run : Relation.ReflTransGen (Pool.Step step Starts May) pool pool')
    (hInv : Inv pool.state)
    (hThreads : ∀ t ∈ pool.threads, t.rest.Wary ok t.seen ∧ ∀ e ∈ t.seen, Told e) :
    Inv pool'.state ∧ ∀ t ∈ pool'.threads, t.rest.Wary ok t.seen ∧ ∀ e ∈ t.seen, Told e := by
  induction run with
  | refl => exact ⟨hInv, hThreads⟩
  | tail _ last ih =>
      obtain ⟨hInv, hThreads⟩ := ih
      cases last with
      | start starts =>
          refine ⟨hInv, fun t ht => ?_⟩
          rcases Multiset.mem_cons.mp ht with rfl | ht
          · exact ⟨hStart _ _ starts, by simp⟩
          · exact hThreads t ht
      | answer may answered =>
          obtain ⟨hWary, hTold⟩ := hThreads _ (Multiset.mem_cons_self _ _)
          obtain ⟨hOk, hNext⟩ := wary_query.mp hWary
          obtain ⟨hInv', hAnswer⟩ := hStep _ _ _ _ _ hOk may hTold hInv answered
          refine ⟨hInv', fun t ht => ?_⟩
          rcases Multiset.mem_cons.mp ht with rfl | ht
          · refine ⟨hNext _, fun e he => ?_⟩
            rcases List.mem_append.mp he with he | he
            · exact hTold e he
            · exact List.mem_singleton.mp he ▸ hAnswer
          · exact hThreads t (Multiset.mem_cons_of_mem ht)
      | stop => exact ⟨hInv, fun t ht => hThreads t (Multiset.mem_cons_of_mem ht)⟩

end

/-! ### A round beside calls -/

/-- The state, what is left of the round, and the calls in progress. -/
structure Beside (Q : Type) (A : Q → Type) (ε α β σ : Type) where
  state : σ
  worker : Program Q A ε α
  calls : Multiset (Program Q A ε β) := 0

section

variable (step : (q : Q) → σ → A q → σ → Prop) (round : Program Q A ε α)
  (Starts : Program Q A ε β → Prop)

/-- A call begins, has a query answered or is over; or the worker has a query
answered, or begins its round again. -/
inductive Beside.Step : Beside Q A ε α β σ → Beside Q A ε α β σ → Prop where
  | call (w : Beside Q A ε α β σ) {p : Program Q A ε β} (starts : Starts p) :
      Step w { w with calls := p ::ₘ w.calls }
  | answerCall {s s' : σ} {worker : Program Q A ε α} {q : Q} {next : A q → Program Q A ε β} {a : A q}
      {calls : Multiset (Program Q A ε β)} (answered : step q s a s') :
      Step ⟨s, worker, query q next ::ₘ calls⟩ ⟨s', worker, next a ::ₘ calls⟩
  | leave {s : σ} {worker : Program Q A ε α} {p : Program Q A ε β} {r : Except ε β}
      {calls : Multiset (Program Q A ε β)} (result : p.result? = some r) :
      Step ⟨s, worker, p ::ₘ calls⟩ ⟨s, worker, calls⟩
  | answerWorker {s s' : σ} {q : Q} {next : A q → Program Q A ε α} {a : A q}
      {calls : Multiset (Program Q A ε β)} (answered : step q s a s') :
      Step ⟨s, query q next, calls⟩ ⟨s', next a, calls⟩
  | again {s : σ} {a : α} {calls : Multiset (Program Q A ε β)} :
      Step ⟨s, done a, calls⟩ ⟨s, round, calls⟩

/-- Whatever others do within `rely` before each of its queries, a program is at all
times where `always` has it, and stops as asked for. -/
def among (rely : σ → σ → Prop) (always : σ → Prop) :
    Program Q A ε α → (Except ε α → σ → Prop) → σ → Prop
  | done a, post, s => always s ∧ post (.ok a) s
  | fail e, post, s => always s ∧ post (.error e) s
  | query q next, post, s =>
      always s ∧ ∀ s', rely s s' → ∀ a s'', step q s' a s'' → (next a).among rely always post s''

variable {step round Starts} {rely : σ → σ → Prop} {always : σ → Prop}
  {post : Except ε α → σ → Prop}

theorem among_always {p : Program Q A ε α} {s : σ} (h : p.among step rely always post s) :
    always s := by
  cases p with
  | done a => exact h.1
  | fail e => exact h.1
  | query q next => exact h.1

/-- What is asked of a program stands while others are at work. -/
theorem among_rely (hTrans : ∀ s s' s'', rely s s' → rely s' s'' → rely s s'')
    (hAlways : ∀ s s', rely s s' → always s → always s')
    (hPost : ∀ r s s', rely s s' → post r s → post r s') {p : Program Q A ε α} {s s' : σ}
    (hRely : rely s s') (h : p.among step rely always post s) : p.among step rely always post s' := by
  cases p with
  | done a => exact ⟨hAlways s s' hRely h.1, hPost _ s s' hRely h.2⟩
  | fail e => exact ⟨hAlways s s' hRely h.1, hPost _ s s' hRely h.2⟩
  | query q next =>
      exact ⟨hAlways s s' hRely h.1, fun s'' hRely' => h.2 s'' (hTrans s s' s'' hRely hRely')⟩

/-- A program goes on with another. -/
theorem among_bind {γ : Type} {p : Program Q A ε γ} {f : γ → Program Q A ε α} {s : σ}
    (h : p.among step rely always (fun r s =>
      match r with
      | .ok a => (f a).among step rely always post s
      | .error e => post (.error e) s) s) : (p >>= f).among step rely always post s := by
  induction p generalizing s with
  | done a => exact h.2
  | fail e => exact h
  | query q next ih => exact ⟨h.1, fun s' hRely a s'' hStep => ih a (h.2 s' hRely a s'' hStep)⟩

theorem among_mono {post' : Except ε α → σ → Prop} {p : Program Q A ε α} {s : σ}
    (h : p.among step rely always post s) (hPost : ∀ r s, post r s → post' r s) :
    p.among step rely always post' s := by
  induction p generalizing s with
  | done a => exact ⟨h.1, hPost _ _ h.2⟩
  | fail e => exact ⟨h.1, hPost _ _ h.2⟩
  | query q next ih => exact ⟨h.1, fun s' hRely a s'' hStep => ih a (h.2 s' hRely a s'' hStep)⟩

/-- A worker that finds what it needs at the start of each round, and leaves it at
the end, keeps to it at all times, beside calls that keep to their queries. -/
theorem Beside.invariant {asks : Q → Prop} {rest : σ → Prop} (hRefl : ∀ s, rely s s)
    (hTrans : ∀ s s' s'', rely s s' → rely s' s'' → rely s s'')
    (hAlways : ∀ s s', rely s s' → always s → always s') (hRest : ∀ s s', rely s s' → rest s → rest s')
    (hStarts : ∀ p, Starts p → p.Wary (fun _ q => asks q) [])
    (hCalls : ∀ q s a s', asks q → step q s a s' → rely s s')
    (hRound : ∀ s, rest s → round.among step rely always (fun r s => (∃ a, r = .ok a) ∧ rest s) s)
    {s : σ} (hStart : rest s) {w : Beside Q A ε α β σ}
    (run : Relation.ReflTransGen (Beside.Step step round Starts) { state := s, worker := round } w) :
    w.worker.among step rely always (fun r s => (∃ a, r = .ok a) ∧ rest s) w.state ∧
      ∀ p ∈ w.calls, ∃ seen, p.Wary (fun _ q => asks q) seen := by
  induction run with
  | refl => exact ⟨hRound s hStart, by simp⟩
  | tail _ last ih =>
      obtain ⟨hWorker, hWary⟩ := ih
      cases last with
      | call w starts =>
          refine ⟨hWorker, ?_⟩
          intro p hp
          rcases Multiset.mem_cons.mp hp with rfl | hp
          · exact ⟨[], hStarts _ starts⟩
          · exact hWary p hp
      | answerCall answered =>
          obtain ⟨seen, hAsks⟩ := hWary _ (Multiset.mem_cons_self _ _)
          obtain ⟨hQuery, hNext⟩ := wary_query.mp hAsks
          have hRely := hCalls _ _ _ _ hQuery answered
          refine ⟨among_rely hTrans hAlways (fun r s s' h hr => ⟨hr.1, hRest s s' h hr.2⟩) hRely hWorker,
            ?_⟩
          intro p hp
          rcases Multiset.mem_cons.mp hp with rfl | hp
          · exact ⟨_, hNext _⟩
          · exact hWary p (Multiset.mem_cons_of_mem hp)
      | leave result => exact ⟨hWorker, fun p hp => hWary p (Multiset.mem_cons_of_mem hp)⟩
      | answerWorker answered => exact ⟨hWorker.2 _ (hRefl _) _ _ answered, hWary⟩
      | again => exact ⟨hRound _ hWorker.2.2, hWary⟩

end

end Program
