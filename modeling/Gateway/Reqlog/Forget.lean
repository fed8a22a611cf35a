import Gateway.Reqlog.Exports

/-! What a forget leaves. The turns of its keys go from the buffer, the table and
the shards that were listed for it. -/
namespace Gateway.Reqlog

open Json Store Program

/-! ### Rows that are left -/

/-- A call adds nothing to the disk but the rows of a batch. -/
theorem held_answer {batch : List Turn} {q : Query} {l l' : Log} {a : q.Answer} (hMay : May batch l q)
    (hAnswer : Answers q l a l') : ∀ t ∈ l'.disk.held, t ∈ l.disk.held ∨ t ∈ batch := by
  have hSame (h : l.Same l') : ∀ t ∈ l'.disk.held, t ∈ l.disk.held ∨ t ∈ batch := by
    intro t ht
    rw [Disk.mem_held, h.turns, h.shards] at ht
    exact Or.inl (Disk.mem_held.mpr ht)
  cases q with
  | now | instant | walSize | retentionDays =>
      obtain ⟨env, hAnswer⟩ := hAnswer
      cases hAnswer
      exact hSame (Log.Same.refl _)
  | call c =>
      rcases Answers.cases hAnswer with ⟨v, -, hWorks⟩ | ⟨e, -, hFails⟩
      · obtain ⟨env, hDisk⟩ := hWorks.disk
        intro t ht
        have hPut := ht
        rw [Disk.mem_held, hDisk] at ht
        cases c with
        | commit =>
            simp only [Disk.execute, List.mem_append] at ht
            rcases ht with (hTurn | hPending) | hShard
            · exact Or.inl (Disk.mem_held.mpr (Or.inl hTurn))
            · exact Or.inr ((hMay : l.disk.pending = batch) ▸ hPending)
            · exact Or.inl (Disk.mem_held.mpr (Or.inr hShard))
        | deleteTurns =>
            refine Or.inl (Disk.mem_held.mpr (Or.inr (ht.resolve_left List.not_mem_nil)))
        | deleteKeyed keys =>
            exact Or.inl (Disk.mem_held.mpr (ht.imp_left fun h => (List.mem_filter.mp h).1))
        | removeShard stamp =>
            refine Or.inl (Disk.mem_held.mpr (ht.imp_right ?_))
            rintro ⟨s, hs, hMem⟩
            exact ⟨s, (List.mem_filter.mp hs).1, hMem⟩
        | rename stamp keys =>
            cases hGet : l.disk.partials.get stamp with
            | none =>
                simp only [Disk.execute, hGet] at ht
                exact Or.inl (Disk.mem_held.mpr ht)
            | some p =>
                simp only [Disk.execute, hGet, Table.mem_put] at ht
                rcases ht with hTurn | ⟨s, ⟨hs, -⟩ | rfl, hMem⟩
                · exact Or.inl (Disk.mem_held.mpr (Or.inl hTurn))
                · exact Or.inl (Disk.mem_held.mpr (Or.inr ⟨s, hs, hMem⟩))
                · rcases hMay s hGet with ⟨-, hTurns⟩ | ⟨s', hShard, hTurns⟩
                  · exact Or.inl (Disk.mem_held.mpr (Or.inl (hTurns ▸ hMem)))
                  · rw [hTurns] at hMem
                    exact Or.inl (Disk.mem_held.mpr
                      (Or.inr ⟨s', (Table.get_eq_some hShard).1, (List.mem_filter.mp hMem).1⟩))
        | _ => exact hSame (hWorks.same rfl) t hPut
      · exact hSame hFails.same

section

variable (cfg : ReqlogConfig) (R : Turn → Prop)

/-- Something holds of the rows of some records, whatever their ids. -/
def OfRecords (records : List (Nat × RequestLogRecord)) : Prop :=
  ∀ x ∈ records, ∀ id, R (rowOf cfg id x)

/-- It holds of all rows that have left the queue. -/
structure Left (l : DuckLogger) : Prop where
  held : ∀ t ∈ l.log.disk.held, R t
  idle : ∀ w, l.phase = .idle w → OfRecords cfg R w.buf
  busy : ∀ m rest, l.phase = .busy m rest → ∃ batch : List Turn, (∀ t ∈ batch, R t) ∧
    Does batch rest (fun r _ => ∀ w, r.1 = some w → OfRecords cfg R w.buf) (fun _ => False) l.log

variable {cfg R} {redactBody : List UInt8 → List UInt8} {l l' : DuckLogger}

theorem ofRecords_nil : OfRecords cfg R [] := by
  intro x hx
  cases hx

theorem OfRecords.rows {id : Nat} {records : List (Nat × RequestLogRecord)}
    (h : OfRecords cfg R records) : ∀ t ∈ rowsFrom cfg id records, R t := by
  induction records generalizing id with
  | nil =>
      intro t ht
      cases ht
  | cons r rest ih =>
      intro t ht
      rcases List.mem_cons.mp ht with rfl | ht
      · exact h r List.mem_cons_self id
      · exact ih (fun x hx => h x (List.mem_cons_of_mem _ hx)) t ht

theorem Left.mono {R' : Turn → Prop} (h : Left cfg R l) (hR : ∀ t, R t → R' t) : Left cfg R' l := by
  refine ⟨fun t ht => hR t (h.held t ht), fun w hw x hx id => hR _ (h.idle w hw x hx id), ?_⟩
  intro m rest hBusy
  obtain ⟨batch, hBatch, hDoes⟩ := h.busy m rest hBusy
  refine ⟨batch, fun t ht => hR t (hBatch t ht), ?_⟩
  exact does_mono hDoes (fun r _ hr w hw x hx id => hR _ (hr w hw x hx id)) fun _ hW => hW

/-- The worker begins with a buffer, and leaves it or nothing. -/
theorem Left.begun (h : Left cfg R l) {m : Option Msg} {rest : Work (Option Worker × Reply)}
    {w : Worker} (hBuf : OfRecords cfg R w.buf)
    (hDoes : Does (w.rows cfg) rest (fun r _ => w.Kept r) (fun _ => False) l.log)
    (hLog : l'.log = l.log) (hPhase : l'.phase = .busy m rest) : Left cfg R l' := by
  refine ⟨by rw [hLog]; exact h.held, fun w' hw' => ?_, fun m' rest' hBusy => ?_⟩
  · rw [hPhase] at hw'
    cases hw'
  · rw [hPhase] at hBusy
    cases hBusy
    refine ⟨w.rows cfg, hBuf.rows, ?_⟩
    rw [hLog]
    refine does_mono hDoes (fun r _ hKept w' hw' => ?_) fun _ hW => hW
    rcases hKept w' hw' with hEmpty | hSame
    · rw [hEmpty]
      exact ofRecords_nil
    · rw [hSame]
      exact hBuf

theorem Left.step {act : Act} (h : Left cfg R l)
    (hTaken : ∀ call r rest, l.queue = .record call r :: rest → act = .take →
      OfRecords cfg R [(call, r)])
    (hStep : l.step cfg redactBody act = some l') : Left cfg R l' := by
  cases DuckLogger.step_stepped hStep with
  | logged | applied | sent | read => exact ⟨h.held, h.idle, h.busy⟩
  | @taken w m rest hPhase hQueue =>
      refine h.begun (w := w.received m) ?_ (Worker.serve_does m) rfl rfl
      have hBuf := h.idle w hPhase
      cases m with
      | record call r =>
          intro x hx
          rcases List.mem_append.mp hx with hOld | hNew
          · exact hBuf x hOld
          · exact hTaken call r rest hQueue rfl x hNew
      | _ => exact hBuf
  | @timedOut w hPhase =>
      refine h.begun (h.idle w hPhase) ?_ rfl rfl
      exact does_mono Worker.turnOver_does (fun _ _ hr w' hw' => Or.inl (hr w' hw')) fun _ hW => hW
  | restarted =>
      refine h.begun (w := ⟨[], 0, 0, 0⟩) ofRecords_nil ?_ rfl rfl
      exact does_mono Worker.openLog_does (fun _ _ hr w' hw' => Or.inl (hr w' hw')) fun _ hW => hW
  | @replied m w reply hPhase =>
      obtain ⟨batch, -, hDone⟩ := h.busy m _ hPhase
      refine ⟨h.held, fun w' hw' => ?_, fun _ _ hBusy => Phase.noConfusion hBusy⟩
      cases hw'
      exact hDone w rfl
  | stopped => exact ⟨h.held, fun _ hw => Phase.noConfusion hw, fun _ _ hBusy => Phase.noConfusion hBusy⟩
  | crashed => exact ⟨h.held, fun _ hw => Phase.noConfusion hw, fun _ _ hBusy => Phase.noConfusion hBusy⟩
  | @called env m q next a log hPhase hAnswer =>
      obtain ⟨batch, hBatch, hMay, hNext⟩ := h.busy m _ hPhase
      refine ⟨fun t ht => ?_, fun w hw => Phase.noConfusion hw, fun m' rest' hBusy => ?_⟩
      · rcases held_answer hMay hAnswer t ht with hOld | hNew
        · exact h.held t hOld
        · exact hBatch t hNew
      · cases hBusy
        exact ⟨batch, hBatch, hNext a log hAnswer⟩

end

/-! ### Records before a forget -/

/-- Records come to the worker before a forget if they were logged before it. -/
def Msg.Before : Msg → Msg → Prop
  | .record call _, .forget _ mark => call < mark
  | .forget _ mark, .record call _ => mark ≤ call
  | _, _ => True

/-- All that was logged before a forget comes before it. -/
structure Ordered (cfg : ReqlogConfig) (l : DuckLogger) : Prop where
  past : Left cfg (fun t => t.call < l.calls) l
  queued : ∀ call r, .record call r ∈ l.queue → call < l.calls
  marked : ∀ keys mark, .forget keys mark ∈ l.queue → mark ≤ l.calls ∧ Left cfg (fun t => t.call < mark) l
  order : l.queue.Pairwise Msg.Before

section

variable {cfg : ReqlogConfig} {redactBody : List UInt8 → List UInt8} {l l' : DuckLogger}

theorem ofRecords_of {P : Nat → Prop} {call : Nat} {r : RequestLogRecord} (h : P call) :
    OfRecords cfg (fun t => P t.call) [(call, r)] := by
  intro x hx id
  cases List.mem_singleton.mp hx
  exact h

/-- An act that only takes from the queue. -/
theorem Ordered.less {act : Act} (h : Ordered cfg l) (hStep : l.step cfg redactBody act = some l')
    (hCalls : l'.calls = l.calls) (hQueue : l'.queue.Sublist l.queue)
    (hTake : act = .take → ∃ m, l.queue = m :: l'.queue) : Ordered cfg l' := by
  have hLeft {n : Nat} (hLeft : Left cfg (fun t => t.call < n) l)
      (hHead : ∀ call r, l.queue = .record call r :: l'.queue → call < n) :
      Left cfg (fun t => t.call < n) l' := by
    refine hLeft.step (fun call r rest hRecord hAct => ?_) hStep
    obtain ⟨m, hAll⟩ := hTake hAct
    rw [hRecord] at hAll
    obtain ⟨rfl, rfl⟩ := List.cons.inj hAll
    exact ofRecords_of (P := (· < n)) (hHead call r hRecord)
  refine ⟨?_, ?_, ?_, h.order.sublist hQueue⟩
  · rw [hCalls]
    refine hLeft h.past fun call r hRecord => h.queued call r ?_
    rw [hRecord]
    exact List.mem_cons_self
  · intro call r hMem
    rw [hCalls]
    exact h.queued call r (hQueue.subset hMem)
  · intro keys mark hMem
    obtain ⟨hMark, hBefore⟩ := h.marked keys mark (hQueue.subset hMem)
    rw [hCalls]
    refine ⟨hMark, hLeft hBefore fun call r hRecord => ?_⟩
    have hOrder := h.order
    rw [hRecord] at hOrder
    exact List.rel_of_pairwise_cons hOrder hMem

theorem Ordered.step {act : Act} (h : Ordered cfg l) (hStep : l.step cfg redactBody act = some l') :
    Ordered cfg l' := by
  have hStepped := DuckLogger.step_stepped hStep
  cases hStepped with
  | applied | timedOut | called | replied | read | restarted =>
      exact h.less hStep rfl (List.Sublist.refl _) fun h => by cases h
  | @taken w m rest hPhase hQueue =>
      refine h.less hStep rfl ?_ fun _ => ⟨m, hQueue⟩
      rw [hQueue]
      exact List.sublist_cons_self m rest
  | stopped => exact h.less hStep rfl (List.nil_sublist _) fun h => by cases h
  | crashed => exact h.less hStep rfl (List.nil_sublist _) fun h => by cases h
  | @sent m hSendable =>
      have hLeft {R : Turn → Prop} (hLeft : Left cfg R l) :
          Left cfg R { l with queue := l.queue ++ [m.marked l.calls] } :=
        ⟨hLeft.held, hLeft.idle, hLeft.busy⟩
      refine ⟨hLeft h.past, fun call r hMem => ?_, fun keys mark hMem => ?_, ?_⟩
      · rcases List.mem_append.mp hMem with hOld | hNew
        · exact h.queued call r hOld
        · have hRecord := List.mem_singleton.mp hNew
          cases m <;> cases hRecord
          cases hSendable
      · rcases List.mem_append.mp hMem with hOld | hNew
        · exact ⟨(h.marked keys mark hOld).1, hLeft (h.marked keys mark hOld).2⟩
        · have hForget := List.mem_singleton.mp hNew
          cases m <;> cases hForget
          exact ⟨Nat.le_refl _, hLeft h.past⟩
      · rw [List.pairwise_append]
        refine ⟨h.order, List.pairwise_singleton _ _, fun m₁ hm₁ m₂ hm₂ => ?_⟩
        cases List.mem_singleton.mp hm₂
        cases m₁ with
        | record call r =>
            cases m with
            | forget keys mark => exact h.queued call r hm₁
            | _ => trivial
        | forget keys mark =>
            cases m with
            | record call r => cases hSendable
            | _ => trivial
        | _ => cases m <;> trivial
  | @logged r dropped queue hQueued =>
      have hLeft {n n' : Nat} (hle : n ≤ n') (hLeft : Left cfg (fun t => t.call < n) l) :
          Left cfg (fun t => t.call < n')
            { l with calls := l.calls + 1, dropped := dropped, queue := queue } :=
        Left.mono ⟨hLeft.held, hLeft.idle, hLeft.busy⟩ fun t ht => Nat.lt_of_lt_of_le ht hle
      have hMem {m : Msg} (hm : m ∈ queue) :
          m ∈ l.queue ∨ m = .record l.calls (redact redactBody l.policy.redaction r) := by
        rcases hQueued with rfl | rfl
        · exact Or.inl hm
        · simpa using hm
      refine ⟨hLeft (Nat.le_succ _) h.past, fun call r hm => ?_, fun keys mark hm => ?_, ?_⟩
      · rcases hMem hm with hOld | hNew
        · exact Nat.lt_succ_of_lt (h.queued call r hOld)
        · cases hNew
          exact Nat.lt_succ_self _
      · rcases hMem hm with hOld | hNew
        · obtain ⟨hMark, hBefore⟩ := h.marked keys mark hOld
          exact ⟨Nat.le_succ_of_le hMark, hLeft (Nat.le_refl _) hBefore⟩
        · cases hNew
      · rcases hQueued with rfl | rfl
        · exact h.order
        · rw [List.pairwise_append]
          refine ⟨h.order, List.pairwise_singleton _ _, fun m₁ hm₁ m₂ hm₂ => ?_⟩
          cases List.mem_singleton.mp hm₂
          cases m₁ with
          | forget keys mark => exact (h.marked keys mark hm₁).1
          | _ => trivial

theorem Ordered.run {acts : List Act} (h : Ordered cfg l)
    (hRun : l.run cfg redactBody acts = some l') : Ordered cfg l' := by
  induction acts generalizing l with
  | nil =>
      cases hRun
      exact h
  | cons act rest ih =>
      obtain ⟨l₁, hStep, hRest⟩ := Option.bind_eq_some_iff.mp hRun
      exact ih (h.step hStep) hRest

theorem ordered_new {disk : Disk} {calls : Nat} (hCalls : ∀ t ∈ disk.held, t.call < calls) :
    Ordered cfg (.new cfg disk calls) := by
  refine ⟨⟨hCalls, fun _ hw => Phase.noConfusion hw, fun _ _ hBusy => Phase.noConfusion hBusy⟩, ?_, ?_,
    List.Pairwise.nil⟩
  · intro call r hm
    cases hm
  · intro keys mark hm
    cases hm

/-! ### While a message is served -/

section

variable {P : Option Worker × Reply → Log → Prop} {W : Worker → Prop} {batch : List Turn}
  {m : Option Msg}

/-- The worker is at a message, whose end is promised. -/
def Serving (batch : List Turn) (m : Option Msg) (P : Option Worker × Reply → Log → Prop)
    (W : Worker → Prop) (l : DuckLogger) : Prop :=
  ∃ rest, l.phase = .busy m rest ∧ Does batch rest P W l.log

theorem Serving.step {act : Act} (h : Serving batch m P W l) (hReply : act ≠ .reply)
    (hCrash : ∀ partials, act ≠ .crash partials) (hStep : l.step cfg redactBody act = some l') :
    Serving batch m P W l' := by
  obtain ⟨rest, hPhase, hDoes⟩ := h
  cases DuckLogger.step_stepped hStep with
  | logged | applied | sent | read => exact ⟨rest, hPhase, hDoes⟩
  | taken hIdle | timedOut hIdle | restarted hIdle =>
      rw [hPhase] at hIdle
      cases hIdle
  | replied | stopped => exact absurd rfl hReply
  | crashed => exact absurd rfl (hCrash _)
  | @called env m' q next a log hBusy hAnswer =>
      rw [hPhase] at hBusy
      cases hBusy
      exact ⟨next a, rfl, hDoes.2 a log hAnswer⟩

/-- Until the worker replies or dies, it is at the same message. -/
theorem Serving.run {during : List Act} (h : Serving batch m P W l)
    (hDuring : ∀ act ∈ during, act ≠ .reply ∧ ∀ partials, act ≠ .crash partials)
    (hRun : l.run cfg redactBody during = some l') : Serving batch m P W l' := by
  induction during generalizing l with
  | nil =>
      cases hRun
      exact h
  | cons act acts ih =>
      obtain ⟨l₁, hStep, hRest⟩ := Option.bind_eq_some_iff.mp hRun
      obtain ⟨hReply, hCrash⟩ := hDuring act List.mem_cons_self
      exact ih (h.step hReply hCrash hStep)
        (fun act hAct => hDuring act (List.mem_cons_of_mem _ hAct)) hRest

end

end

/-! ### What is forgotten -/

/-- What an export that reads all there is may return. -/
def Disk.Exports (d : Disk) (f : CaptureFilter) (out : List CapturedTurn) : Prop :=
  ∃ scan : List Turn, scan.Perm d.held ∧ out = f.select scan

/-- The disk once the worker has flushed. -/
def Worker.flushedTo (cfg : ReqlogConfig) (w : Worker) (d : Disk) : Disk :=
  { d with turns := d.turns ++ w.rows cfg }

/-- No export returns a turn of the keys from here on that was logged before. -/
def DuckLogger.Forgets (cfg : ReqlogConfig) (redactBody : List UInt8 → List UInt8) (l : DuckLogger)
    (keys : List Id) (mark : Nat) : Prop :=
  ∀ later l' i env f turns, l.run cfg redactBody later = some l' →
    l'.returned i env = some (f, turns) → ∀ t ∈ turns, t.call < mark → t.keyIn keys = false

/-- Every other turn is returned as before. -/
def OthersAsBefore (keys : List Id) (d d' : Disk) : Prop :=
  ∀ f out out', d.Exports f out → d'.Exports f out' → out'.Perm (out.filter fun t => !t.keyIn keys)

/-- The shards that hold a turn of the keys that an export would return are listed. -/
def AllListed (keys : List Id) (d : Disk) (entries : List (Option Path)) : Prop :=
  ∀ s ∈ d.shards.rows, ∀ t ∈ s.turns, t.isError = false → t.keyIn keys = true →
    Worker.listed entries s.stamp = true

/-- No other turn is taken for one, of the keys or not. -/
def ToldApart (keys : List Id) (d : Disk) : Prop :=
  ∀ t ∈ d.held, ∀ u ∈ d.held, t.isError = false → u.isError = false → t.key = u.key →
    t.keyIn keys = false → t.captured = u.captured

theorem Turn.keyIn_captured (keys : List Id) (t : Turn) : t.captured.keyIn keys = t.keyIn keys := rfl

theorem mem_shards_iff {d : Disk} {t : Turn} : (∃ s ∈ d.shards.rows, t ∈ s.turns) ↔
    ∃ stamp turns, (d.shards.get stamp).map Shard.turns = some turns ∧ t ∈ turns := by
  constructor
  · rintro ⟨s, hs, hMem⟩
    exact ⟨s.stamp, s.turns, by rw [Table.get_key hs, Option.map_some], hMem⟩
  · rintro ⟨stamp, turns, hGet, hMem⟩
    obtain ⟨s, hShard, rfl⟩ := Option.map_eq_some_iff.mp hGet
    exact ⟨s, (Table.get_eq_some hShard).1, hMem⟩

/-- What is on the disk after a forget. -/
theorem mem_forgot {keys : List Id} {l l' : Log} (h : Worker.Forgot keys l l') {t : Turn} :
    t ∈ l'.disk.held ↔ (t ∈ l.disk.turns ∧ t.keyIn keys = false) ∨ ∃ s ∈ l.disk.shards.rows,
      t ∈ s.turns ∧ (Worker.listed l'.listing s.stamp = true → t.keyIn keys = false) := by
  have hWithout {turns : List Turn} :
      t ∈ Worker.without keys turns ↔ t ∈ turns ∧ t.keyIn keys = false := by
    simp [Worker.without]
  rw [Disk.mem_held, h.turns, hWithout, mem_shards_iff]
  apply or_congr_right
  constructor
  · rintro ⟨stamp, turns, hGet, hMem⟩
    rw [h.shards] at hGet
    obtain ⟨before, hBefore, rfl⟩ := Option.map_eq_some_iff.mp hGet
    obtain ⟨s, hShard, rfl⟩ := Option.map_eq_some_iff.mp hBefore
    obtain ⟨hs, rfl⟩ := Table.get_eq_some hShard
    refine ⟨s, hs, ?_⟩
    split at hMem
    · exact ⟨(hWithout.mp hMem).1, fun _ => (hWithout.mp hMem).2⟩
    · next hNot => exact ⟨hMem, fun h => absurd h hNot⟩
  · rintro ⟨s, hs, hMem, hListed⟩
    refine ⟨s.stamp, _, by rw [h.shards, Table.get_key hs, Option.map_some, Option.map_some], ?_⟩
    split
    · next hIs => exact hWithout.mpr ⟨hMem, hListed hIs⟩
    · exact hMem

theorem mem_select {f : CaptureFilter} {scan : List Turn} {t : CapturedTurn} (h : t ∈ f.select scan) :
    ∃ u ∈ scan, u.isError = false ∧ u.captured = t := by
  unfold CaptureFilter.select at h
  obtain ⟨u, hu, rfl⟩ := List.mem_map.mp (List.mem_filter.mp h).1
  have hFresh := (List.perm_insertionSort _ _).mem_iff.mp hu
  obtain ⟨hScan, hTakes⟩ := List.mem_filter.mp ((Firsts.fresh_sublist _ _ _).subset hFresh)
  refine ⟨u, hScan, ?_, rfl⟩
  unfold CaptureFilter.takes at hTakes
  simp only [Bool.and_eq_true, Bool.not_eq_true'] at hTakes
  exact hTakes.1.1.1.1.1

section

variable {cfg : ReqlogConfig} {redactBody : List UInt8 → List UInt8} {l l' : DuckLogger}
  {keys : List Id} {mark : Nat}

/-- No turn of the keys is left that was logged before and that an export would
return. -/
structure Cleared (cfg : ReqlogConfig) (keys : List Id) (mark : Nat) (l : DuckLogger) : Prop where
  left : Left cfg (fun t => t.isError = false → t.call < mark → t.keyIn keys = false) l
  queued : ∀ call r, .record call r ∈ l.queue → mark ≤ call
  calls : mark ≤ l.calls

/-- What is logged from now on comes later. -/
theorem later_step {act : Act} (hQueued : ∀ call r, .record call r ∈ l.queue → mark ≤ call)
    (hCalls : mark ≤ l.calls) (hStep : l.step cfg redactBody act = some l') :
    (∀ call r, .record call r ∈ l'.queue → mark ≤ call) ∧ mark ≤ l'.calls := by
  cases DuckLogger.step_stepped hStep with
  | applied | timedOut | called | replied | read | restarted => exact ⟨hQueued, hCalls⟩
  | @taken w m rest hPhase hQueue =>
      refine ⟨fun call r hMem => hQueued call r ?_, hCalls⟩
      rw [hQueue]
      exact List.mem_cons_of_mem m hMem
  | stopped => exact ⟨fun _ _ hMem => absurd hMem List.not_mem_nil, hCalls⟩
  | crashed => exact ⟨fun _ _ hMem => absurd hMem List.not_mem_nil, hCalls⟩
  | @sent m hSendable =>
      refine ⟨fun call r hMem => ?_, hCalls⟩
      rcases List.mem_append.mp hMem with hOld | hNew
      · exact hQueued call r hOld
      · have hRecord := List.mem_singleton.mp hNew
        cases m <;> cases hRecord
        cases hSendable
  | @logged r dropped queue hNext =>
      refine ⟨fun call r' hMem => ?_, Nat.le_succ_of_le hCalls⟩
      rcases hNext with rfl | rfl
      · exact hQueued call r' hMem
      · rcases List.mem_append.mp hMem with hOld | hNew
        · exact hQueued call r' hOld
        · cases List.mem_singleton.mp hNew
          exact hCalls

theorem later_run {acts : List Act} (hQueued : ∀ call r, .record call r ∈ l.queue → mark ≤ call)
    (hCalls : mark ≤ l.calls) (hRun : l.run cfg redactBody acts = some l') :
    (∀ call r, .record call r ∈ l'.queue → mark ≤ call) ∧ mark ≤ l'.calls := by
  induction acts generalizing l with
  | nil =>
      cases hRun
      exact ⟨hQueued, hCalls⟩
  | cons act rest ih =>
      obtain ⟨l₁, hStep, hRest⟩ := Option.bind_eq_some_iff.mp hRun
      obtain ⟨hQueued, hCalls⟩ := later_step hQueued hCalls hStep
      exact ih hQueued hCalls hRest

theorem Cleared.step {act : Act} (h : Cleared cfg keys mark l)
    (hStep : l.step cfg redactBody act = some l') : Cleared cfg keys mark l' := by
  obtain ⟨hQueued, hCalls⟩ := later_step h.queued h.calls hStep
  refine ⟨h.left.step (fun call r rest hQueue _ => ?_) hStep, hQueued, hCalls⟩
  intro x hx id _ hBefore
  cases List.mem_singleton.mp hx
  have hMark : mark ≤ call := h.queued call r (by rw [hQueue]; exact List.mem_cons_self)
  exact absurd hBefore (Nat.not_lt.mpr hMark)

theorem Cleared.run {acts : List Act} (h : Cleared cfg keys mark l)
    (hRun : l.run cfg redactBody acts = some l') : Cleared cfg keys mark l' := by
  induction acts generalizing l with
  | nil =>
      cases hRun
      exact h
  | cons act rest ih =>
      obtain ⟨l₁, hStep, hRest⟩ := Option.bind_eq_some_iff.mp hRun
      exact ih (h.step hStep) hRest

theorem Cleared.forgets (h : Cleared cfg keys mark l) (hCandid : l.Candid) :
    l.Forgets cfg redactBody keys mark := by
  intro later l' i env f turns hRun hReturned t ht hBefore
  obtain ⟨files, -, rfl⟩ := (hCandid.run hRun).returned hReturned
  obtain ⟨u, hu, hFine, rfl⟩ := mem_select ht
  rw [(env.scan_perm _).mem_iff, List.mem_append] at hu
  have hHeld : u ∈ l'.log.disk.held := by
    rcases hu with hTurn | hSealed
    · exact Disk.mem_held.mpr (Or.inl hTurn)
    · obtain ⟨stamp, -, hMem⟩ := List.mem_flatMap.mp hSealed
      exact Disk.sealed_held hMem
  exact (h.run hRun).left.held u hHeld hFine hBefore

/-! ### The others -/

theorem others_of_toldApart {d d' : Disk}
    (hHeld : ∀ t, t.isError = false → (t ∈ d'.held ↔ t ∈ d.held ∧ t.keyIn keys = false))
    (hApart : ToldApart keys d) : OthersAsBefore keys d d' := by
  rintro f _ _ ⟨scan, hScan, rfl⟩ ⟨scan', hScan', rfl⟩
  unfold CaptureFilter.select
  rw [List.filter_comm]
  apply List.Perm.filter
  have hFine {t : Turn} (hTakes : f.takes t = true) : t.isError = false := by
    unfold CaptureFilter.takes at hTakes
    simp only [Bool.and_eq_true, Bool.not_eq_true'] at hTakes
    exact hTakes.1.1.1.1.1
  let others := (Firsts.fresh Turn.key [] (scan.filter f.takes)).filter fun t => !t.keyIn keys
  have hNodup : (others.map Turn.key).Nodup :=
    List.Nodup.sublist (List.filter_sublist.map Turn.key) (Firsts.nodup_fresh _ _ _)
  have hOthers : Firsts.fresh Turn.key [] others = others :=
    Firsts.fresh_eq_self Turn.key hNodup fun _ _ => List.not_mem_nil
  have hMem {t : Turn} (ht : t ∈ others) :
      t ∈ scan.filter f.takes ∧ t ∈ d.held ∧ t.isError = false ∧ t.keyIn keys = false := by
    obtain ⟨hFresh, hNot⟩ := List.mem_filter.mp ht
    have hScanned := (Firsts.fresh_sublist _ _ _).subset hFresh
    obtain ⟨hIn, hTakes⟩ := List.mem_filter.mp hScanned
    exact ⟨hScanned, hScan.mem_iff.mp hIn, hFine hTakes, by simpa using hNot⟩
  have hMem' {t : Turn} (ht : t ∈ scan'.filter f.takes) :
      t ∈ d.held ∧ t.isError = false ∧ t.keyIn keys = false ∧ t ∈ scan.filter f.takes := by
    obtain ⟨hIn, hTakes⟩ := List.mem_filter.mp ht
    obtain ⟨hBefore, hNot⟩ := (hHeld t (hFine hTakes)).mp (hScan'.mem_iff.mp hIn)
    exact ⟨hBefore, hFine hTakes, hNot, List.mem_filter.mpr ⟨hScan.mem_iff.mpr hBefore, hTakes⟩⟩
  have hFirsts : ((Firsts.fresh Turn.key [] (scan'.filter f.takes)).map Turn.captured).Perm
      ((Firsts.fresh Turn.key [] others).map Turn.captured) := by
    apply Firsts.map_fresh_perm
    · intro k
      constructor
      · intro hk
        obtain ⟨t, ht, rfl⟩ := List.mem_map.mp hk
        obtain ⟨hBefore, hFineT, hNot, hScanned⟩ := hMem' ht
        obtain ⟨u, hu, hKey⟩ := List.mem_map.mp ((Firsts.mem_map_fresh Turn.key).mpr
          ⟨List.mem_map_of_mem hScanned, List.not_mem_nil⟩)
        have huScan := (Firsts.fresh_sublist _ _ _).subset hu
        obtain ⟨huIn, huTakes⟩ := List.mem_filter.mp huScan
        have hSame := hApart t hBefore u (hScan.mem_iff.mp huIn) hFineT (hFine huTakes) hKey.symm hNot
        have huNot : u.keyIn keys = false := by
          rw [← Turn.keyIn_captured, ← hSame]
          exact hNot
        rw [← hKey]
        exact List.mem_map_of_mem (List.mem_filter.mpr ⟨hu, by rw [huNot]; rfl⟩)
      · intro hk
        obtain ⟨t, ht, rfl⟩ := List.mem_map.mp hk
        obtain ⟨hScanned, hBefore, hFineT, hNot⟩ := hMem ht
        refine List.mem_map_of_mem (List.mem_filter.mpr ⟨?_, (List.mem_filter.mp hScanned).2⟩)
        exact hScan'.mem_iff.mpr ((hHeld t hFineT).mpr ⟨hBefore, hNot⟩)
    · intro t ht u hu hKey
      obtain ⟨hBefore, hFineT, hNot, -⟩ := hMem' ht
      obtain ⟨-, huBefore, huFine, -⟩ := hMem hu
      exact hApart t hBefore u huBefore hFineT huFine hKey hNot
  rw [hOthers] at hFirsts
  have hSorted : ((((Firsts.fresh Turn.key [] (scan.filter f.takes)).insertionSort
      fun a b => a.ts ≤ b.ts).map Turn.captured).filter fun t => !t.keyIn keys).Perm
      (others.map Turn.captured) := by
    have hSort := ((List.perm_insertionSort (fun a b : Turn => a.ts ≤ b.ts)
      (Firsts.fresh Turn.key [] (scan.filter f.takes))).map Turn.captured).filter
        fun t => !t.keyIn keys
    have hOthers : ((Firsts.fresh Turn.key [] (scan.filter f.takes)).map Turn.captured).filter
        (fun t => !t.keyIn keys) = others.map Turn.captured := List.filter_map
    rwa [hOthers] at hSort
  exact (((List.perm_insertionSort _ _).map _).trans hFirsts).trans hSorted.symm

/-- Turns that are not told apart are returned for one another. -/
theorem toldApart_of_others {d d' : Disk} (h : OthersAsBefore keys d d') : ToldApart keys d := by
  intro t ht u hu hFineT hFineU hKey hNot
  by_cases hSame : t = u
  · rw [hSame]
  · obtain ⟨rest, hRest⟩ : ∃ rest, (t :: u :: rest).Perm d.held := by
      have hFirst := List.perm_cons_erase ht
      have hOther : u ∈ d.held.erase t :=
        (List.mem_cons.mp (hFirst.mem_iff.mp hu)).resolve_left (Ne.symm hSame)
      exact ⟨_, (hFirst.trans ((List.perm_cons_erase hOther).cons t)).symm⟩
    -- the one that is read first is returned, and the rest is the same
    have hPick {a b : Turn} (hFine : a.isError = false) (hFine' : b.isError = false)
        (hKey : a.key = b.key) : (CaptureFilter.select {} (a :: b :: rest)).Perm
          (a.captured :: (Firsts.fresh Turn.key [a.key]
            (rest.filter fun t => !t.isError)).map Turn.captured) := by
      refine (select_all _).trans ?_
      simp [hFine, hFine', Firsts.fresh, ← hKey]
    have hLast : d'.Exports {} (CaptureFilter.select {} d'.held) := ⟨_, .refl _, rfl⟩
    have hFirst := h {} _ _ ⟨_, hRest, rfl⟩ hLast
    have hSecond := h {} _ _ ⟨_, (List.Perm.swap t u rest).trans hRest, rfl⟩ hLast
    have hBoth := (((hPick hFineT hFineU hKey).filter _).symm.trans hFirst.symm).trans
      (hSecond.trans ((hPick hFineU hFineT hKey.symm).filter _))
    rw [← hKey, List.filter_cons_of_pos (by rw [Turn.keyIn_captured, hNot]; rfl)] at hBoth
    by_cases hOut : u.keyIn keys = true
    · rw [List.filter_cons_of_neg (by rw [Turn.keyIn_captured, hOut]; exact Bool.false_ne_true)] at hBoth
      have hLength := hBoth.length_eq
      rw [List.length_cons] at hLength
      omega
    · rw [List.filter_cons_of_pos (by rw [Turn.keyIn_captured]; simpa using hOut)] at hBoth
      have hOne := (List.perm_append_right_iff _).mp
        (show ([t.captured] ++ _).Perm ([u.captured] ++ _) from hBoth)
      exact List.singleton_inj.mp (List.perm_singleton.mp hOne)

/-! ### An export of what is left -/

/-- The process dies and the log is opened again, and an export is asked for. -/
def reopening : List Act :=
  [Act.crash .empty, .restart] ++ works 4 0 ++ [.reply, .send (.exportFor {}), .take] ++ works 1 0 ++ [.reply]

/-- The log with nothing but an export to do. -/
def DuckLogger.reopened (cfg : ReqlogConfig) (l : DuckLogger) : DuckLogger where
  log := { l.log with disk := { l.log.disk with pending := [], partials := .empty } }
  policy := { enabled := false, retentionDays := cfg.retentionDays }
  calls := l.calls
  phase := .idle ⟨[], l.log.disk.maxId + 1, 0, 0⟩
  exports := [⟨{}, exportTwice {}⟩]

theorem run_append {first : List Act} {l l' : DuckLogger}
    (h : l.run cfg redactBody first = some l') (second : List Act) :
    l.run cfg redactBody (first ++ second) = l'.run cfg redactBody second := by
  induction first generalizing l with
  | nil =>
      cases h
      rfl
  | cons act rest ih =>
      obtain ⟨l₁, hStep, hRest⟩ := Option.bind_eq_some_iff.mp h
      show (l.step cfg redactBody act).bind _ = _
      rw [hStep]
      exact ih hRest

theorem run_reopening : l.run cfg redactBody reopening = some (l.reopened cfg) := by
  have hRoom : decide (([] : List Msg).length < max cfg.queueSize 1) = true :=
    decide_eq_true (Nat.lt_of_lt_of_le Nat.zero_lt_one (Nat.le_max_right _ _))
  have hBack : l.run cfg redactBody ([Act.crash .empty, .restart] ++ works 4 0 ++ [.reply]) =
      some { l.reopened cfg with exports := [] } := rfl
  have hSplit : reopening = ([Act.crash .empty, .restart] ++ works 4 0 ++ [.reply]) ++
      ([Act.send (.exportFor {}), .take] ++ works 1 0 ++ [.reply]) := rfl
  rw [hSplit, run_append hBack]
  have hSend : ({ l.reopened cfg with exports := [] } : DuckLogger).step cfg redactBody
      (.send (.exportFor {})) = some { l.reopened cfg with
        exports := [], queue := [.exportFor {}] } :=
    if_pos hRoom
  show (DuckLogger.step cfg redactBody _ _).bind _ = _
  rw [hSend]
  rfl

theorem hasShards_listed {log : Log} (hNone : log.disk.partials = .empty) :
    hasShards (log.answer (.calm 0) (.call .readDir)).1 = !log.disk.shards.rows.isEmpty := by
  show (log.disk.paths.map some).any (fun entry => entry.any Path.isShard) = _
  unfold Disk.paths
  rw [hNone]
  cases log.disk.shards.rows <;> rfl

/-- The shards that are listed are those that are prepared. -/
theorem prepare_listed {log : Log} :
    (log.answer (.calm 0) (.call (.prepare !log.disk.shards.rows.isEmpty))).1 =
        .ok (log.disk.shards.rows.map Shard.stamp) := by
  have hExecute : log.disk.execute (.calm 0) (.prepare !log.disk.shards.rows.isEmpty) =
      (.ok (log.disk.shards.rows.map Shard.stamp), log.disk) := by
    unfold Disk.execute
    cases hRows : log.disk.shards.rows <;> simp
  show (log.call (.calm 0) _).1 = _
  unfold Log.call
  dsimp only [Env.calm] at hExecute ⊢
  rw [hExecute]

/-- What is read of all shards is what is on the disk. -/
theorem Disk.flatMap_sealed (d : Disk) : 
    (d.shards.rows.map Shard.stamp).flatMap d.sealed = d.shards.rows.flatMap Shard.turns := by
  rw [List.flatMap_map]
  apply List.flatMap_congr
  intro s hs
  exact Disk.sealed_of_get (Table.get_key hs)

/-- A scan that comes to a row first. -/
def Env.first (t : Turn) : Env :=
  { Env.calm 0 with
    scan := fun turns => if t ∈ turns then t :: turns.erase t else turns
    scan_perm := fun turns => by
      split
      · next hMem => exact (List.perm_cons_erase hMem).symm
      · exact .refl _ }

/-- What is left of an export once it has looked for shards. -/
def preparing (b : Bool) : Reading (List CapturedTurn) :=
  query (.call (.prepare b)) fun files => do
    let files : List Int ← orFail files
    query (.call (.read files {})) orFail

/-- What is left of it once it knows them. -/
def reader (stamps : List Int) : Reading (List CapturedTurn) :=
  (query (.call (.read stamps {})) orFail : Reading (List CapturedTurn)).attempt >>= secondTry {}

theorem run_listing : (l.reopened cfg).run cfg redactBody (listing 0) = some { l.reopened cfg with
    exports := [⟨{}, reader (l.log.disk.shards.rows.map Shard.stamp)⟩] } := by
  let log := (l.reopened cfg).log
  have hFirst : (l.reopened cfg).step cfg redactBody (.read 0 (.calm 0)) = some { l.reopened cfg with
      exports := [⟨{}, (preparing !l.log.disk.shards.rows.isEmpty).attempt >>= secondTry {}⟩] } := by
    have hShards : hasShards (log.answer (.calm 0) (.call .readDir)).1 = !l.log.disk.shards.rows.isEmpty :=
      hasShards_listed rfl
    rw [← hShards]
    rfl
  have hSecond : ({ l.reopened cfg with
      exports := [⟨{}, (preparing !l.log.disk.shards.rows.isEmpty).attempt >>= secondTry {}⟩] } :
        DuckLogger).step cfg redactBody (.read 0 (.calm 0)) = some { l.reopened cfg with
          exports := [⟨{}, reader (l.log.disk.shards.rows.map Shard.stamp)⟩] } := by
    have hStamps : (log.answer (.calm 0) (.call (.prepare !log.disk.shards.rows.isEmpty))).1 =
        .ok (l.log.disk.shards.rows.map Shard.stamp) := prepare_listed
    have hNext (a : Except Str (List Int)) : a = .ok (l.log.disk.shards.rows.map Shard.stamp) →
        DuckLogger.goOn {} ((orFail a >>= fun files =>
          query (.call (.read files {})) orFail : Reading (List CapturedTurn)).attempt >>= secondTry {}) =
            [⟨{}, reader (l.log.disk.shards.rows.map Shard.stamp)⟩] := by
      rintro rfl
      rfl
    exact congrArg (fun exports => some { l.reopened cfg with exports := exports ++ [] }) (hNext _ hStamps)
  refine (congrArg (Option.bind · _) hFirst).trans ?_
  exact congrArg (Option.bind · _) hSecond

theorem returned_of {i : Nat} {env : Env} {f : CaptureFilter} {q : Query}
    {next : q.Answer → Reading (List CapturedTurn)} {after : List Export} {turns : List CapturedTurn}
    (hAt : l.exports.drop i = ⟨f, .query q next⟩ :: after)
    (hDone : next (l.log.answer env q).1 = .done turns) : l.returned i env = some (f, turns) := by
  unfold DuckLogger.returned
  rw [hAt]
  dsimp only
  rw [hDone]

/-- What is on the disk can still be returned. -/
theorem held_returned {t : Turn} (ht : t ∈ l.log.disk.held) (hFine : t.isError = false) :
    ∃ later l' i env turns, l.run cfg redactBody later = some l' ∧
      l'.returned i env = some ({}, turns) ∧ t.captured ∈ turns := by
  let log := (l.reopened cfg).log
  let stamps := l.log.disk.shards.rows.map Shard.stamp
  have hHeld : log.disk.turns ++ stamps.flatMap log.disk.sealed = log.disk.held :=
    congrArg (log.disk.turns ++ ·) log.disk.flatMap_sealed
  have hScan : (Env.first t).scan log.disk.held = t :: log.disk.held.erase t := if_pos ht
  have hAll : (stamps.all fun stamp => (log.disk.shards.get stamp).isSome) = true := by
    rw [List.all_eq_true]
    intro stamp hStamp
    obtain ⟨s, hs, rfl⟩ := List.mem_map.mp hStamp
    rw [show log.disk.shards.get s.stamp = some s from Table.get_key hs]
    rfl
  have hRead : (log.answer (.first t) (.call (.read stamps {}))).1 =
      .ok (CaptureFilter.select {} (t :: log.disk.held.erase t)) := by
    have hExecute : log.disk.execute (.first t) (.read stamps {}) =
        (.ok (CaptureFilter.select {} (t :: log.disk.held.erase t)), log.disk) := by
      rw [← hScan, ← hHeld]
      exact if_pos hAll
    show (log.call (.first t) _).1 = _
    unfold Log.call
    rw [hExecute]
    rfl
  refine ⟨_, _, 0, .first t, CaptureFilter.select {} (t :: log.disk.held.erase t),
    (run_append run_reopening _).trans run_listing, ?_, ?_⟩
  · have hGiven (a : Except Str (List CapturedTurn)) (turns : List CapturedTurn) : a = .ok turns →
        (orFail a).attempt >>= secondTry {} = .done turns := by
      rintro rfl
      rfl
    exact returned_of rfl (hGiven _ _ hRead)
  · rw [(select_all _).mem_iff, List.filter_cons_of_pos (by simpa using hFine)]
    exact List.mem_cons_self

/-! ### A forget -/

/-- The worker is idle and a forget is next, and it has come to the reply that all
is erased. -/
structure Forgetting (cfg : ReqlogConfig) (redactBody : List UInt8 → List UInt8) (keys : List Id)
    (mark : Nat) (w : Worker) (l l' : DuckLogger) : Prop where
  idle : l.phase = .idle w
  next : ∃ rest, l.queue = .forget keys mark :: rest
  runs : ∃ during : List Act, (∀ act ∈ during, act ≠ .reply ∧ ∀ partials, act ≠ .crash partials) ∧
    l.run cfg redactBody (.take :: during) = some l'
  replies : ∃ m r n, l'.phase = .busy m (.done (r, .forgotten (.ok n)))

namespace Forgetting

variable {w : Worker}

theorem taken (h : Forgetting cfg redactBody keys mark w l l') :
    ∃ rest during, l.queue = .forget keys mark :: rest ∧
      (∀ act ∈ during, act ≠ .reply ∧ ∀ partials, act ≠ .crash partials) ∧
      DuckLogger.run cfg redactBody { l with
        queue := rest, phase := .busy (some (.forget keys mark)) (w.serve cfg (.forget keys mark)) }
          during = some l' := by
  obtain ⟨rest, hQueue⟩ := h.next
  obtain ⟨during, hDuring, hRun⟩ := h.runs
  refine ⟨rest, during, hQueue, hDuring, ?_⟩
  obtain ⟨l₁, hStep, hRest⟩ := Option.bind_eq_some_iff.mp hRun
  cases DuckLogger.step_stepped hStep with
  | taken hPhase hTaken =>
      cases h.idle.symm.trans hPhase
      cases hQueue.symm.trans hTaken
      exact hRest

/-- What the worker has left, and the disk. -/
theorem outcome (h : Forgetting cfg redactBody keys mark w l l') :
    (∃ m reply, l'.phase = .busy m (.done (some w.flushed, reply))) ∧
      ∃ log, Worker.Flushed (w.rows cfg) l.log log ∧ Worker.Forgot keys log l'.log := by
  obtain ⟨rest, during, -, hDuring, hRun⟩ := h.taken
  obtain ⟨m, r, n, hReplies⟩ := h.replies
  have hServing : Serving (w.rows cfg) (some (.forget keys mark))
      (fun r log' => ∀ n, r.2 = .forgotten (.ok n) → r.1 = some w.flushed ∧
        ∃ log, Worker.Flushed (w.rows cfg) l.log log ∧ Worker.Forgot keys log log') (fun _ => False)
      { l with queue := rest
               phase := .busy (some (.forget keys mark)) (w.serve cfg (.forget keys mark)) } :=
    ⟨_, rfl, Worker.serve_forget_does⟩
  obtain ⟨rest', hPhase, hDoes⟩ := hServing.run hDuring hRun
  cases hPhase.symm.trans hReplies
  obtain ⟨hWorker, hDisk⟩ := hDoes n rfl
  exact ⟨⟨_, _, by rw [hReplies]; dsimp only at hWorker; rw [hWorker]⟩, hDisk⟩

theorem mem_held (h : Forgetting cfg redactBody keys mark w l l') {t : Turn} :
    t ∈ l'.log.disk.held ↔
      (t ∈ l.log.disk.turns ++ w.rows cfg ∧ t.keyIn keys = false) ∨ ∃ s ∈ l.log.disk.shards.rows,
        t ∈ s.turns ∧ (Worker.listed l'.log.listing s.stamp = true → t.keyIn keys = false) := by
  obtain ⟨-, log, hFlushed, hForgot⟩ := h.outcome
  rw [mem_forgot hForgot, hFlushed.turns, hFlushed.shards]

/-- Where all shards are listed, the turns that are left are the others. -/
theorem mem_listed (h : Forgetting cfg redactBody keys mark w l l')
    (hListed : AllListed keys l.log.disk l'.log.listing) {t : Turn} (hFine : t.isError = false) :
    t ∈ l'.log.disk.held ↔ t ∈ (w.flushedTo cfg l.log.disk).held ∧ t.keyIn keys = false := by
  rw [h.mem_held, Disk.mem_held]
  constructor
  · rintro (⟨hTurn, hNot⟩ | ⟨s, hs, hMem, hNot⟩)
    · exact ⟨Or.inl hTurn, hNot⟩
    · refine ⟨Or.inr ⟨s, hs, hMem⟩, ?_⟩
      by_contra hKey
      exact hKey (hNot (hListed s hs t hMem hFine (by simpa using hKey)))
  · rintro ⟨hTurn | ⟨s, hs, hMem⟩, hNot⟩
    · exact Or.inl ⟨hTurn, hNot⟩
    · exact Or.inr ⟨s, hs, hMem, fun _ => hNot⟩

theorem cleared (h : Forgetting cfg redactBody keys mark w l l') (hOrdered : Ordered cfg l)
    (hListed : AllListed keys l.log.disk l'.log.listing) : Cleared cfg keys mark l' := by
  obtain ⟨⟨m, reply, hPhase⟩, -⟩ := h.outcome
  obtain ⟨rest, during, hQueue, hDuring, hRun⟩ := h.taken
  have hMark : mark ≤ l.calls := (hOrdered.marked keys mark (hQueue ▸ List.mem_cons_self)).1
  have hLater : ∀ call r, .record call r ∈ rest → mark ≤ call := by
    intro call r hMem
    have hOrder := hOrdered.order
    rw [hQueue] at hOrder
    exact List.rel_of_pairwise_cons hOrder hMem
  obtain ⟨hQueued, hCalls⟩ := later_run (l := { l with queue := rest, phase := _ }) hLater hMark hRun
  refine ⟨⟨fun t ht hFine _ => ((h.mem_listed hListed hFine).mp ht).2, ?_, ?_⟩, hQueued, hCalls⟩
  · intro w' hIdle
    exact Phase.noConfusion (hPhase.symm.trans hIdle)
  · intro m' rest' hBusy
    cases hPhase.symm.trans hBusy
    refine ⟨[], fun _ h => absurd h List.not_mem_nil, fun w' hw => ?_⟩
    cases hw
    exact ofRecords_nil

/-- What a shard keeps is returned, though it was logged before. -/
theorem allListed (h : Forgetting cfg redactBody keys mark w l l') (hOrdered : Ordered cfg l)
    (hForgets : l'.Forgets cfg redactBody keys mark) : AllListed keys l.log.disk l'.log.listing := by
  intro s hs t hMem hFine hKey
  by_contra hNot
  have hStands : t ∈ l'.log.disk.held := h.mem_held.mpr (Or.inr ⟨s, hs, hMem, fun h => absurd h hNot⟩)
  obtain ⟨rest, hQueue⟩ := h.next
  have hBefore : t.call < mark :=
    (hOrdered.marked keys mark (hQueue ▸ List.mem_cons_self)).2.held t
      (Disk.mem_held.mpr (Or.inr ⟨s, hs, hMem⟩))
  have hReturns : ∃ later l'' i env turns, l'.run cfg redactBody later = some l'' ∧
      l''.returned i env = some ({}, turns) ∧ t.captured ∈ turns := held_returned hStands hFine
  obtain ⟨later, l'', i, env, turns, hLater, hReturned, hIn⟩ := hReturns
  have hGone := hForgets later l'' i env {} turns hLater hReturned _ hIn hBefore
  exact Bool.false_ne_true (hGone.symm.trans hKey)

end Forgetting

/-- A forget that works has erased the turns of its keys, and no others, just when
it was told of each shard with such a turn and no two turns are taken for one. -/
theorem forget_holds_iff {disk : Disk} {calls : Nat} {first : List Act} {w : Worker}
    (hCalls : ∀ t ∈ disk.held, t.call < calls)
    (hFirst : (DuckLogger.new cfg disk calls).run cfg redactBody first = some l)
    (hForget : Forgetting cfg redactBody keys mark w l l') :
    (l'.Forgets cfg redactBody keys mark ∧
      OthersAsBefore keys (w.flushedTo cfg l.log.disk) l'.log.disk) ↔
    AllListed keys l.log.disk l'.log.listing ∧ ToldApart keys (w.flushedTo cfg l.log.disk) := by
  have hOrdered : Ordered cfg l := (ordered_new hCalls).run hFirst
  constructor
  · rintro ⟨hForgets, hOthers⟩
    exact ⟨hForget.allListed hOrdered hForgets, toldApart_of_others hOthers⟩
  · rintro ⟨hListed, hApart⟩
    have hCandid : l'.Candid := by
      obtain ⟨during, -, hRun⟩ := hForget.runs
      exact (DuckLogger.candid_new.run hFirst).run hRun
    refine ⟨(hForget.cleared hOrdered hListed).forgets hCandid, ?_⟩
    exact others_of_toldApart (fun t hFine => hForget.mem_listed hListed hFine) hApart

end

/-! ### A key with a turn in a shard -/

instance (keys : List Id) (d : Disk) (entries : List (Option Path)) :
    Decidable (AllListed keys d entries) := by
  unfold AllListed
  infer_instance

instance (keys : List Id) (d : Disk) : Decidable (ToldApart keys d) :=
  decidable_of_iff (∀ t ∈ d.held, ∀ u ∈ d.held, t.isError = false → u.isError = false →
    (t.id = u.id ∧ t.ts = u.ts ∧ t.requestId = u.requestId) →
      t.keyIn keys = false → t.captured = u.captured) (by simp only [ToldApart, Turn.key, Prod.mk.injEq])

def Phase.worker : Phase → Option Worker
  | .idle w => some w
  | _ => none

def Phase.hasForgotten : Phase → Bool
  | .busy _ (.done (_, .forgotten (.ok _))) => true
  | _ => false

def DuckLogger.nextForget (l : DuckLogger) : Option (List Id × Nat) :=
  match l.queue with
  | .forget keys mark :: _ => some (keys, mark)
  | _ => none

def sampleKeys : List Id := ["k".toList]

/-- A turn of the key is in a shard, another and one of another key are not
flushed, and the key is to be forgotten. -/
def toForget : List Act :=
  opened 0 ++ loggedFor [1] 1000 ++ rotating 2000 ++
    [Act.log (sampleRecord [2] 3000), .take, .reply,
      .log { sampleRecord [3] 4000 with apiKeyId := some "j".toList }, .take, .reply,
      .send (.forget sampleKeys 0)]

/-- The worker makes its calls. -/
def forgetCalls (n : Nat) (env : Env) : List Act := List.replicate n (.work env)

def afterForget (n : Nat) (env : Env) : DuckLogger := stands (toForget ++ .take :: forgetCalls n env)

/-- The worker as the forget finds it. -/
def sampleWorker : Worker := (stands toForget).phase.worker.getD ⟨[], 0, 0, 0⟩

theorem forgetting_sample {n : Nat} {env : Env}
    (hFirst : ((DuckLogger.new {} {} 0).run {} id toForget).isSome = true)
    (hIdle : (stands toForget).phase.worker.isSome = true)
    (hNext : (stands toForget).nextForget = some (sampleKeys, 3))
    (hRun : ((DuckLogger.new {} {} 0).run {} id (toForget ++ .take :: forgetCalls n env)).isSome = true)
    (hForgot : (afterForget n env).phase.hasForgotten = true) :
    Forgetting {} id sampleKeys 3 sampleWorker (stands toForget) (afterForget n env) := by
  have hRuns := run_stands hRun
  rw [run_append (run_stands hFirst)] at hRuns
  refine ⟨?_, ?_, ⟨forgetCalls n env, ?_, hRuns⟩, ?_⟩
  · obtain ⟨w, hWorker⟩ := Option.isSome_iff_exists.mp hIdle
    have hSample : sampleWorker = w := by
      unfold sampleWorker
      rw [hWorker]
      rfl
    unfold Phase.worker at hWorker
    split at hWorker
    · next hPhase =>
        cases hWorker
        rw [hPhase, hSample]
    · cases hWorker
  · unfold DuckLogger.nextForget at hNext
    split at hNext
    · next rest hQueue =>
        cases hNext
        exact ⟨rest, hQueue⟩
    · cases hNext
  · intro act hAct
    cases List.eq_of_mem_replicate hAct
    exact ⟨Act.noConfusion, fun _ => Act.noConfusion⟩
  · unfold Phase.hasForgotten at hForgot
    split at hForgot
    · next hPhase => exact ⟨_, _, _, hPhase⟩
    · cases hForgot

theorem sample_forgotten : (afterForget 14 (.calm 5000)).Forgets {} id sampleKeys 3 ∧
    OthersAsBefore sampleKeys (sampleWorker.flushedTo {} (stands toForget).log.disk)
      (afterForget 14 (.calm 5000)).log.disk := by
  have hForget : Forgetting {} id sampleKeys 3 sampleWorker (stands toForget) (afterForget 14 (.calm 5000)) :=
    forgetting_sample (by decide +kernel) (by decide +kernel) (by decide +kernel) (by decide +kernel)
      (by decide +kernel)
  have hNone : ∀ t ∈ ({} : Disk).held, t.call < 0 := fun _ h => absurd h List.not_mem_nil
  refine (forget_holds_iff hNone (run_stands (by decide +kernel)) hForget).mpr ?_
  decide +kernel

def denied : Call → Option Str
  | .readDir => some "denied".toList
  | _ => none

/-- A directory that cannot be read. -/
def unreadable : Env :=
  { Env.calm 5000 with fault := denied }

/-- A forget that could not list the shards says that all is erased. -/
theorem shard_skipped :
    Forgetting {} id sampleKeys 3 sampleWorker (stands toForget) (afterForget 7 unreadable) ∧
      ¬(afterForget 7 unreadable).Forgets {} id sampleKeys 3 := by
  have hNone : ∀ t ∈ ({} : Disk).held, t.call < 0 := fun _ h => absurd h List.not_mem_nil
  have hFirst : (DuckLogger.new {} {} 0).run {} id toForget = some (stands toForget) :=
    run_stands (by decide +kernel)
  have hForget : Forgetting {} id sampleKeys 3 sampleWorker (stands toForget) (afterForget 7 unreadable) :=
    forgetting_sample (by decide +kernel) (by decide +kernel) (by decide +kernel) (by decide +kernel)
      (by decide +kernel)
  refine ⟨hForget, fun hForgets => ?_⟩
  have hListed := hForget.allListed ((ordered_new hNone).run hFirst) hForgets
  exact absurd hListed (by decide +kernel)

end Gateway.Reqlog
