import Gateway.Reqlog.Exports

/-! What becomes of the buffered records when a flush fails. The buffer is emptied
before the first call of the flush. -/
namespace Gateway.Reqlog

open Json Store Program

namespace Worker

variable (cfg : ReqlogConfig) (w : Worker) (env : Env) (l : Log)

/-- The calls of a flush that goes through. -/
def flushCalls : List Call := .begin :: .prepareInsert :: (w.rows cfg).map .insert ++ [.commit]

/-- A flush with a database that fails some calls: its result, and the log after
it. -/
def flushIn : Except (Str × Worker) Worker × Log :=
  (w.flush cfg).run (fun q l => l.answer env q) l

/-- The worker goes on in either case. -/
def resumed : Except (Str × Worker) Worker → Worker
  | .ok w | .error (_, w) => w

/-- Each record is stored once or waits for the next flush. -/
def NothingLost (out : Except (Str × Worker) Worker × Log) : Prop :=
  ∃ id stored, out.2.disk.turns = l.disk.turns ++ rowsFrom cfg id stored ∧
    w.buf.Perm (stored ++ (resumed out.1).buf)

variable {cfg w env l}

theorem run_db (w : Worker) (c : Call) :
    (w.db c).run (fun q l => l.answer env q) l =
      match l.call env c with
      | (.ok v, l') => (.ok v, l')
      | (.error e, l') => (.error ("reqlog/duckdb: ".toList ++ e, w), l') := by
  have hAnswer : l.answer env (.call c) = l.call env c := rfl
  simp only [db, Worker.call, run, hAnswer]
  rcases l.call env c with ⟨_ | _, _⟩ <;> rfl

theorem run_db_ok (w : Worker) {c : Call} {v : c.Result} {d : Disk} (hFine : env.fault c = none)
    (hExecute : l.disk.execute env c = (.ok v, d)) :
    ∃ l', (w.db c).run (fun q l => l.answer env q) l = (.ok v, l') ∧ l'.disk = d := by
  have hCall : l.call env c = (.ok v, ⟨d, l.keptAfter c d, l.listingAfter c (.ok v)⟩) := by
    rw [Log.call, hFine, hExecute]
  exact ⟨_, by rw [run_db, hCall], rfl⟩

theorem run_db_error (w : Worker) {c : Call} {e : Str} (hFault : env.fault c = some e) :
    ∃ e' l', (w.db c).run (fun q l => l.answer env q) l = (.error (e', w), l') ∧
      l'.disk = l.disk.failed env c := by
  have hCall : l.call env c =
      (.error e, ⟨l.disk.failed env c, l.kept, l.listingAfter c (.error e)⟩) := by
    rw [Log.call, hFault]
  exact ⟨_, _, by rw [run_db, hCall], rfl⟩

/-! ### The rows -/

theorem run_insertAll_ok {records : List (Nat × RequestLogRecord)}
    (hFine : ∀ t ∈ rowsFrom cfg w.nextId records, env.fault (.insert t) = none) :
    ∃ l', (insertAll cfg records w).run (fun q l => l.answer env q) l =
        (.ok { w with nextId := w.nextId + records.length }, l') ∧
      l'.disk = { l.disk with pending := l.disk.pending ++ rowsFrom cfg w.nextId records } := by
  induction records generalizing w l with
  | nil => exact ⟨l, rfl, by simp [rowsFrom]⟩
  | cons r rest ih =>
      obtain ⟨l₁, hInsert, hDisk⟩ := run_db_ok (l := l) { w with nextId := w.nextId + 1 }
        (hFine _ List.mem_cons_self) rfl
      obtain ⟨l₂, hRest, hDisk₂⟩ := ih (w := { w with nextId := w.nextId + 1 }) (l := l₁)
        fun t ht => hFine t (List.mem_cons_of_mem _ ht)
      refine ⟨l₂, ?_, ?_⟩
      · rw [insertAll, run_bind, hInsert]
        dsimp only
        rw [hRest]
        simp [Nat.add_comm, Nat.add_left_comm]
      · rw [hDisk₂, hDisk]
        simp [rowsFrom]

/-- The first row that fails ends the inserting; none is in the table. -/
theorem run_insertAll_error {records : List (Nat × RequestLogRecord)}
    (hFault : ∃ t ∈ rowsFrom cfg w.nextId records, env.fault (.insert t) ≠ none) :
    ∃ e w' l', (insertAll cfg records w).run (fun q l => l.answer env q) l =
        (.error (e, w'), l') ∧ w'.buf = w.buf ∧ l'.disk.turns = l.disk.turns := by
  induction records generalizing w l with
  | nil =>
      obtain ⟨t, ht, -⟩ := hFault
      exact absurd ht List.not_mem_nil
  | cons r rest ih =>
      cases hFirst : env.fault (.insert (rowOf cfg w.nextId r)) with
      | some e =>
          obtain ⟨e', l', hInsert, hDisk⟩ := run_db_error (l := l)
            { w with nextId := w.nextId + 1 } hFirst
          refine ⟨e', { w with nextId := w.nextId + 1 }, l', ?_, rfl, ?_⟩
          · rw [insertAll, run_bind, hInsert]
          · rw [hDisk]
            rfl
      | none =>
          obtain ⟨l₁, hInsert, hDisk⟩ := run_db_ok (l := l) { w with nextId := w.nextId + 1 }
            hFirst rfl
          have hLater : ∃ t ∈ rowsFrom cfg (w.nextId + 1) rest, env.fault (.insert t) ≠ none := by
            obtain ⟨t, ht, hFails⟩ := hFault
            rcases List.mem_cons.mp ht with rfl | hRest
            · exact absurd hFirst hFails
            · exact ⟨t, hRest, hFails⟩
          obtain ⟨e', w', l', hRest, hBuf, hTurns⟩ :=
            ih (w := { w with nextId := w.nextId + 1 }) (l := l₁) hLater
          refine ⟨e', w', l', ?_, hBuf, ?_⟩
          · rw [insertAll, run_bind, hInsert]
            exact hRest
          · rw [hTurns, hDisk]

/-! ### The flush -/

theorem flushIn_empty (hEmpty : w.buf = []) : w.flushIn cfg env l = (.ok w, l) := by
  rw [flushIn, flush_empty hEmpty, run]

/-- The worker once its buffer is taken. -/
def emptied (w : Worker) : Worker := { w with buf := [] }

@[simp] theorem emptied_buf (w : Worker) : w.emptied.buf = [] := rfl

@[simp] theorem emptied_nextId (w : Worker) : w.emptied.nextId = w.nextId := rfl

/-- The flush once its transaction has begun. -/
theorem flushIn_begun (hSome : w.buf ≠ []) {l₁ : Log} {u : Unit}
    (hBegin : (w.emptied.db .begin).run (fun q l => l.answer env q) l = (.ok u, l₁)) :
    w.flushIn cfg env l =
      let inserted := (w.emptied.db .prepareInsert >>= fun _ =>
        insertAll cfg w.buf w.emptied).run (fun q l => l.answer env q) l₁
      (endInsert inserted.1).run (fun q l => l.answer env q) inserted.2 := by
  have hNonempty : ¬ w.buf.isEmpty = true := by rwa [List.isEmpty_iff]
  rw [flushIn, flush, if_neg hNonempty]
  show (w.emptied.db .begin >>= fun _ => _).run _ l = _
  rw [run_bind, hBegin]
  dsimp only
  rw [run_bind, run_attempt]
  rfl

theorem insert_mem_flushCalls {t : Turn} (ht : t ∈ w.rows cfg) :
    .insert t ∈ w.flushCalls cfg := by
  simp [flushCalls, ht]

/-- A flush that goes through stores the buffer. -/
theorem flushIn_ok (hSome : w.buf ≠ [])
    (hFine : ∀ c ∈ w.flushCalls cfg, env.fault c = none) :
    ∃ w' l', w.flushIn cfg env l = (.ok w', l') ∧ w'.buf = [] ∧
      l'.disk.turns = l.disk.turns ++ w.rows cfg := by
  obtain ⟨l₁, hBegin, hDisk₁⟩ := run_db_ok (l := l) w.emptied
    (hFine .begin (by simp [flushCalls])) rfl
  obtain ⟨l₂, hPrepare, hDisk₂⟩ := run_db_ok (l := l₁) w.emptied
    (hFine .prepareInsert (by simp [flushCalls])) rfl
  obtain ⟨l₃, hInsert, hDisk₃⟩ := @run_insertAll_ok cfg w.emptied env l₂ w.buf
    fun t ht => hFine (.insert t) (insert_mem_flushCalls ht)
  obtain ⟨l₄, hCommit, hDisk₄⟩ := run_db_ok (l := l₃) w.flushed
    (hFine .commit (by simp [flushCalls])) rfl
  refine ⟨w.flushed, l₄, ?_, rfl, ?_⟩
  · rw [flushIn_begun hSome hBegin, run_bind, hPrepare]
    dsimp only
    rw [hInsert]
    show (w.flushed.db .commit >>= fun _ => done w.flushed).run _ l₃ = _
    rw [run_bind, hCommit]
    rfl
  · rw [hDisk₄, hDisk₃, hDisk₂, hDisk₁]
    simp [rows]

/-- A batch that was not inserted is rolled back. -/
theorem run_endInsert_error (e : Str × Worker) :
    ∃ l', (endInsert (.error e)).run (fun q l => l.answer env q) l = (.error e, l') ∧
      l'.disk.turns = l.disk.turns := by
  refine ⟨(l.call env .rollback).2, rfl, ?_⟩
  unfold Log.call
  cases env.fault .rollback <;> rfl

/-- A flush that fails leaves neither a buffer nor a row. -/
theorem flushIn_error (hSome : w.buf ≠ []) (hFault : ∃ c ∈ w.flushCalls cfg, env.fault c ≠ none) :
    ∃ e w' l', w.flushIn cfg env l = (.error (e, w'), l') ∧ w'.buf = [] ∧
      l'.disk.turns = l.disk.turns := by
  have hNonempty : ¬ w.buf.isEmpty = true := by rwa [List.isEmpty_iff]
  cases hBeginFault : env.fault .begin with
  | some e =>
      obtain ⟨e', l', hBegin, hDisk⟩ := run_db_error (l := l) w.emptied hBeginFault
      refine ⟨e', w.emptied, l', ?_, rfl, by rw [hDisk]; rfl⟩
      rw [flushIn, flush, if_neg hNonempty]
      show (w.emptied.db .begin >>= fun _ => _).run _ l = _
      rw [run_bind, hBegin]
  | none =>
      obtain ⟨l₁, hBegin, hDisk₁⟩ := run_db_ok (l := l) w.emptied hBeginFault rfl
      -- an error before the commit is passed on after the rollback
      have hRolledBack : ∀ {e w' l₂}, (w.emptied.db .prepareInsert >>= fun _ =>
          insertAll cfg w.buf w.emptied).run (fun q l => l.answer env q) l₁ =
            (.error (e, w'), l₂) → w'.buf = [] → l₂.disk.turns = l.disk.turns →
          ∃ e w' l', w.flushIn cfg env l = (.error (e, w'), l') ∧ w'.buf = [] ∧
            l'.disk.turns = l.disk.turns := by
        intro e w' l₂ hInserted hBuf hTurns
        obtain ⟨l', hEnd, hSame⟩ := @run_endInsert_error env l₂ (e, w')
        refine ⟨e, w', l', ?_, hBuf, hSame.trans hTurns⟩
        rw [flushIn_begun hSome hBegin, hInserted]
        exact hEnd
      cases hPrepareFault : env.fault .prepareInsert with
      | some e =>
          obtain ⟨e', l₂, hPrepare, hDisk₂⟩ := run_db_error (l := l₁) w.emptied hPrepareFault
          refine hRolledBack (by rw [run_bind, hPrepare]) rfl ?_
          rw [hDisk₂, hDisk₁]
          rfl
      | none =>
          obtain ⟨l₂, hPrepare, hDisk₂⟩ := run_db_ok (l := l₁) w.emptied hPrepareFault rfl
          have hTurns₂ : l₂.disk.turns = l.disk.turns := by rw [hDisk₂, hDisk₁]
          by_cases hInsertFault : ∃ t ∈ rowsFrom cfg w.nextId w.buf, env.fault (.insert t) ≠ none
          · obtain ⟨e', w', l₃, hInsert, hBuf, hTurns⟩ :=
              @run_insertAll_error cfg w.emptied env l₂ w.buf hInsertFault
            have hInserted : (w.emptied.db .prepareInsert >>= fun _ =>
                insertAll cfg w.buf w.emptied).run (fun q l => l.answer env q) l₁ =
                  (.error (e', w'), l₃) := by
              rw [run_bind, hPrepare]
              exact hInsert
            exact hRolledBack hInserted hBuf (hTurns.trans hTurns₂)
          · push Not at hInsertFault
            obtain ⟨l₃, hInsert, hDisk₃⟩ :=
              @run_insertAll_ok cfg w.emptied env l₂ w.buf hInsertFault
            -- only the commit is left to fail
            obtain ⟨c, hc, hFails⟩ := hFault
            have hCommitFault : env.fault .commit ≠ none := by
              simp only [flushCalls, List.mem_append, List.mem_cons, List.mem_map,
                List.not_mem_nil, or_false] at hc
              rcases hc with (rfl | rfl | ⟨t, ht, rfl⟩) | rfl
              · exact absurd hBeginFault hFails
              · exact absurd hPrepareFault hFails
              · exact absurd (hInsertFault t ht) hFails
              · exact hFails
            obtain ⟨e, hCommitFault⟩ := Option.ne_none_iff_exists'.mp hCommitFault
            obtain ⟨e', l₄, hCommit, hDisk₄⟩ := run_db_error (l := l₃) w.flushed hCommitFault
            refine ⟨e', w.flushed, l₄, ?_, rfl, ?_⟩
            · rw [flushIn_begun hSome hBegin, run_bind, hPrepare]
              dsimp only
              rw [hInsert]
              show (w.flushed.db .commit >>= fun _ => done w.flushed).run _ l₃ = _
              rw [run_bind, hCommit]
            · rw [hDisk₄, Disk.failed, hDisk₃]
              exact hTurns₂

theorem length_rowsFrom (id : Nat) (records : List (Nat × RequestLogRecord)) :
    (rowsFrom cfg id records).length = records.length := by
  induction records generalizing id with
  | nil => rfl
  | cons r rest ih => rw [rowsFrom, List.length_cons, List.length_cons, ih]

/-- Nothing is lost when nothing was buffered or no call fails, and only then. -/
theorem nothing_lost_iff : w.NothingLost cfg l (w.flushIn cfg env l) ↔
    w.buf = [] ∨ ∀ c ∈ w.flushCalls cfg, env.fault c = none := by
  by_cases hEmpty : w.buf = []
  · refine iff_of_true ⟨0, [], ?_, ?_⟩ (.inl hEmpty)
    · rw [flushIn_empty hEmpty]
      exact (List.append_nil _).symm
    · rw [flushIn_empty hEmpty]
      exact .refl _
  by_cases hFine : ∀ c ∈ w.flushCalls cfg, env.fault c = none
  · obtain ⟨w', l', hFlush, hBuf, hTurns⟩ := flushIn_ok (l := l) hEmpty hFine
    refine iff_of_true ⟨w.nextId, w.buf, ?_, ?_⟩ (.inr hFine)
    · rw [hFlush]
      exact hTurns
    · rw [hFlush, resumed, hBuf, List.append_nil]
  · refine iff_of_false ?_ (not_or.mpr ⟨hEmpty, hFine⟩)
    push Not at hFine
    obtain ⟨e, w', l', hFlush, hBuf, hTurns⟩ := flushIn_error (l := l) hEmpty hFine
    rintro ⟨id, stored, hStored, hPerm⟩
    rw [hFlush] at hStored hPerm
    dsimp only at hStored
    rw [hTurns] at hStored
    have hNone : stored.length = 0 := by
      have hLength := congrArg List.length hStored
      rw [List.length_append, length_rowsFrom] at hLength
      omega
    rw [resumed, hBuf, List.append_nil] at hPerm
    exact hEmpty (List.eq_nil_of_length_eq_zero (hPerm.length_eq.trans hNone))

/-- One record waits. -/
def oneBuffered : Worker := ⟨[(0, sampleRecord [] 0)], 1, 0, 0⟩

/-- A database that cannot commit. -/
def fullDisk : Env :=
  { Env.calm 0 with
    fault := fun
      | .commit => some "no space".toList
      | _ => none }

theorem record_lost_at_commit :
    (resumed (oneBuffered.flushIn {} fullDisk {}).1).buf.length = 0 ∧
      (oneBuffered.flushIn {} fullDisk {}).2.disk.turns.length = 0 ∧
      ¬ oneBuffered.NothingLost {} {} (oneBuffered.flushIn {} fullDisk {}) := by
  have hBuf : (resumed (oneBuffered.flushIn {} fullDisk {}).1).buf.length = 0 := rfl
  have hTurns : (oneBuffered.flushIn {} fullDisk {}).2.disk.turns.length = 0 := rfl
  refine ⟨hBuf, hTurns, ?_⟩
  rintro ⟨id, stored, hStored, hPerm⟩
  have hRows := congrArg List.length hStored
  have hRecords := hPerm.length_eq
  rw [hTurns, List.length_append, length_rowsFrom] at hRows
  rw [List.length_append, hBuf] at hRecords
  have hOne : oneBuffered.buf.length = 1 := rfl
  omega

end Worker

end Gateway.Reqlog
