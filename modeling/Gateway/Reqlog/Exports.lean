import Gateway.Reqlog.Logger

/-! What an export returns beside the turns that are kept. A turn is in the table,
in a shard, or in several places at once, and it is lost between them only to an
export that does not look everywhere. -/
namespace Gateway.Reqlog

open Json Store Program

/-- The file that a shard is sealed under is a new one. -/
def Query.NewName (l : Log) : Query → Prop
  | .call (.rename stamp []) => l.disk.shards.get stamp = none
  | _ => True

/-- A turn that is flushed is told from those that are kept. A read finds the turns
of a shard that it was not told of in another place. -/
def Query.Meets (l : Log) : Query → Prop
  | .call .commit => ∀ t ∈ l.disk.pending, ∀ u ∈ l.kept,
      t.isError = false → u.isError = false → t.key ≠ u.key
  | .call (.read files _) => ∀ s ∈ l.disk.shards.rows, s.stamp ∉ files → ∀ t ∈ s.turns,
      t.isError = false → t ∈ l.disk.turns ++ files.flatMap l.disk.sealed
  | _ => True

namespace DuckLogger

/-- The query that an act answers. -/
def asked (l : DuckLogger) : Act → Option Query
  | .work _ =>
      match l.phase with
      | .busy _ (.query q _) => some q
      | _ => none
  | .read i _ =>
      match l.exports.drop i with
      | ⟨_, .query q _⟩ :: _ => some q
      | _ => none
  | _ => none

/-- The queries of a run are asked where they may be. -/
def Along (cfg : ReqlogConfig) (redactBody : List UInt8 → List UInt8) (P : Log → Query → Prop)
    (l : DuckLogger) : List Act → Prop
  | [] => True
  | act :: rest =>
      (∀ q ∈ l.asked act, P l.log q) ∧
        ∀ l' ∈ l.step cfg redactBody act, Along cfg redactBody P l' rest

instance (log : Log) (q : Query) : Decidable (q.NewName log) := by
  unfold Query.NewName
  split <;> infer_instance

instance (log : Log) (q : Query) : Decidable (q.Meets log) := by
  unfold Query.Meets
  split <;> infer_instance

def decideAlong (cfg : ReqlogConfig) (redactBody : List UInt8 → List UInt8) (P : Log → Query → Prop)
    [∀ log q, Decidable (P log q)] : (acts : List Act) → (l : DuckLogger) →
      Decidable (l.Along cfg redactBody P acts)
  | [], _ => isTrue trivial
  | act :: rest, l =>
      have := decideAlong cfg redactBody P rest
      inferInstanceAs (Decidable ((∀ q ∈ l.asked act, P l.log q) ∧
        ∀ l' ∈ l.step cfg redactBody act, Along cfg redactBody P l' rest))

instance (cfg : ReqlogConfig) (redactBody : List UInt8 → List UInt8) (P : Log → Query → Prop)
    [∀ log q, Decidable (P log q)] (l : DuckLogger) (acts : List Act) :
    Decidable (l.Along cfg redactBody P acts) := decideAlong cfg redactBody P acts l

end DuckLogger

/-! ### The turns that are kept -/

theorem Disk.mem_held {d : Disk} {t : Turn} :
    t ∈ d.held ↔ t ∈ d.turns ∨ ∃ s ∈ d.shards.rows, t ∈ s.turns := by
  simp [Disk.held]

theorem Disk.sealed_of_get {d : Disk} {stamp : Int} {s : Shard} (h : d.shards.get stamp = some s) :
    d.sealed stamp = s.turns := by
  rw [Disk.sealed, h]
  rfl

/-- What is kept is what is on the disk, and no two turns of it are taken for one. -/
structure Log.Sound (l : Log) : Prop where
  held : ∀ t, t ∈ l.kept ↔ t ∈ l.disk.held
  apart : ((l.kept.filter fun t => !t.isError).map Turn.key).Nodup

namespace Log.Sound

variable {l l' : Log}

theorem same (h : l.Sound) (hSame : l.Same l') : l'.Sound := by
  refine ⟨fun t => ?_, by rw [hSame.kept]; exact h.apart⟩
  rw [hSame.kept, h.held, Disk.mem_held, Disk.mem_held, hSame.turns, hSame.shards]

/-- The turns that are to go are kept where they still stand. -/
theorem drop (h : l.Sound) {goes : Turn → Bool}
    (hKept : l'.kept = l.kept.filter fun t => !goes t || l'.disk.held.contains t)
    (hLess : ∀ t ∈ l'.disk.held, t ∈ l.disk.held)
    (hStay : ∀ t ∈ l.disk.held, goes t = false → t ∈ l'.disk.held) : l'.Sound := by
  constructor
  · intro t
    rw [hKept, List.mem_filter, h.held]
    constructor
    · rintro ⟨hHeld, hGoes⟩
      rcases Bool.or_eq_true_iff.mp hGoes with hNot | hStands
      · exact hStay t hHeld (by simpa using hNot)
      · simpa using hStands
    · intro hHeld
      exact ⟨hLess t hHeld, by simp [hHeld]⟩
  · rw [hKept]
    exact List.Nodup.sublist ((List.filter_sublist.filter _).map Turn.key) h.apart

theorem commit {batch : List Turn} (h : l.Sound) (hPending : l.disk.pending = batch)
    (hBatch : (batch.map Turn.id).Nodup) (hMeets : (Query.call .commit).Meets l)
    (hWorks : Works .commit l v l') : l'.Sound := by
  obtain ⟨env, hDisk⟩ := hWorks.disk
  have hKept : l'.kept = l.kept ++ batch := hPending ▸ hWorks.choose_spec.2.1
  constructor
  · intro t
    rw [hKept, List.mem_append, h.held, Disk.mem_held, Disk.mem_held, hDisk]
    simp only [Disk.execute, hPending, List.mem_append]
    exact or_right_comm
  · rw [hKept, List.filter_append, List.map_append]
    refine h.apart.append ?_ ?_
    · have hKeys : (batch.map Turn.key).Nodup := by
        apply List.Nodup.of_map Prod.fst
        rw [List.map_map]
        exact hBatch
      exact hKeys.sublist (List.filter_sublist.map _)
    · intro k hOld hNew
      obtain ⟨u, hu, rfl⟩ := List.mem_map.mp hOld
      obtain ⟨t, ht, hKey⟩ := List.mem_map.mp hNew
      rw [List.mem_filter] at hu ht
      exact hMeets t (hPending ▸ ht.1) u hu.1 (by simpa using ht.2) (by simpa using hu.2) hKey

theorem emptied (h : l.Sound) (hMay : ∀ t ∈ l.disk.turns, ∃ s ∈ l.disk.shards.rows, t ∈ s.turns)
    (hWorks : Works .deleteTurns l v l') : l'.Sound := by
  obtain ⟨env, hDisk⟩ := hWorks.disk
  have hKept : l'.kept = l.kept := hWorks.choose_spec.2.1
  refine ⟨fun t => ?_, by rw [hKept]; exact h.apart⟩
  rw [hKept, h.held, Disk.mem_held, Disk.mem_held, hDisk]
  constructor
  · rintro (hTurn | hShard)
    · exact Or.inr (hMay t hTurn)
    · exact Or.inr hShard
  · rintro (hTurn | hShard)
    · cases hTurn
    · exact Or.inr hShard

theorem deleteKeyed {keys : List Id} (h : l.Sound) (hWorks : Works (.deleteKeyed keys) l v l') :
    l'.Sound := by
  obtain ⟨env, hDisk⟩ := hWorks.disk
  have hHeld (t : Turn) : t ∈ l'.disk.held ↔
      (t ∈ l.disk.turns ∧ t.keyIn keys = false) ∨ ∃ s ∈ l.disk.shards.rows, t ∈ s.turns := by
    rw [Disk.mem_held, hDisk]
    simp [Disk.execute]
  refine h.drop hWorks.choose_spec.2.1 (fun t ht => ?_) fun t ht hStays => ?_
  · exact Disk.mem_held.mpr (((hHeld t).mp ht).imp_left And.left)
  · exact (hHeld t).mpr ((Disk.mem_held.mp ht).imp_left fun hTurn => ⟨hTurn, hStays⟩)

theorem removeShard {stamp : Int} (h : l.Sound) (hWorks : Works (.removeShard stamp) l v l') :
    l'.Sound := by
  obtain ⟨env, hDisk⟩ := hWorks.disk
  have hHeld (t : Turn) : t ∈ l'.disk.held ↔
      t ∈ l.disk.turns ∨ ∃ s ∈ l.disk.shards.rows, s.stamp ≠ stamp ∧ t ∈ s.turns := by
    rw [Disk.mem_held, hDisk]
    simp [Disk.execute, Table.keep, and_assoc]
  refine h.drop hWorks.choose_spec.2.1 (fun t ht => ?_) fun t ht hStays => ?_
  · rcases (hHeld t).mp ht with hTurn | ⟨s, hs, -, hMem⟩
    · exact Disk.mem_held.mpr (Or.inl hTurn)
    · exact Disk.mem_held.mpr (Or.inr ⟨s, hs, hMem⟩)
  · rcases Disk.mem_held.mp ht with hTurn | ⟨s, hs, hMem⟩
    · exact (hHeld t).mpr (Or.inl hTurn)
    · refine (hHeld t).mpr (Or.inr ⟨s, hs, ?_, hMem⟩)
      rintro rfl
      rw [Disk.sealed_of_get (Table.get_key hs)] at hStays
      simp [hMem] at hStays

/-- A shard is sealed under a new name, or takes the place of one that it is a copy
of. -/
theorem renamed {batch : List Turn} {stamp : Int} {keys : List Id} (h : l.Sound)
    (hMay : May batch l (.call (.rename stamp keys)))
    (hName : (Query.call (.rename stamp keys)).NewName l)
    (hWorks : Works (.rename stamp keys) l v l') : l'.Sound := by
  obtain ⟨env, hExecute, hKept, -⟩ := hWorks
  cases hGet : l.disk.partials.get stamp with
  | none =>
      simp only [Disk.execute, hGet] at hExecute
      cases (Prod.ext_iff.mp hExecute).1
  | some p =>
      simp only [Disk.execute, hGet] at hExecute
      have hDisk := (Prod.ext_iff.mp hExecute).2
      dsimp only at hDisk
      have hStamp : p.stamp = stamp := (Table.get_eq_some hGet).2
      have hHeld (t : Turn) : t ∈ l'.disk.held ↔ t ∈ l.disk.turns ∨
          (∃ s ∈ l.disk.shards.rows, s.stamp ≠ stamp ∧ t ∈ s.turns) ∨ t ∈ p.turns := by
        rw [Disk.mem_held, ← hDisk]
        simp only [Table.mem_put, hStamp]
        constructor
        · rintro (hTurn | ⟨s, ⟨hs, hNot⟩ | rfl, hMem⟩)
          · exact Or.inl hTurn
          · exact Or.inr (Or.inl ⟨s, hs, hNot, hMem⟩)
          · exact Or.inr (Or.inr hMem)
        · rintro (hTurn | ⟨s, hs, hNot, hMem⟩ | hMem)
          · exact Or.inl hTurn
          · exact Or.inr ⟨s, Or.inl ⟨hs, hNot⟩, hMem⟩
          · exact Or.inr ⟨p, Or.inr rfl, hMem⟩
      refine h.drop hKept (fun t ht => ?_) fun t ht hStays => ?_
      · rcases (hHeld t).mp ht with hTurn | ⟨s, hs, -, hMem⟩ | hMem
        · exact Disk.mem_held.mpr (Or.inl hTurn)
        · exact Disk.mem_held.mpr (Or.inr ⟨s, hs, hMem⟩)
        · rcases hMay p hGet with ⟨-, hTurns⟩ | ⟨s, hShard, hTurns⟩
          · exact Disk.mem_held.mpr (Or.inl (hTurns ▸ hMem))
          · rw [hTurns] at hMem
            exact Disk.mem_held.mpr
              (Or.inr ⟨s, (Table.get_eq_some hShard).1, (List.mem_filter.mp hMem).1⟩)
      · rcases Disk.mem_held.mp ht with hTurn | ⟨s, hs, hMem⟩
        · exact (hHeld t).mpr (Or.inl hTurn)
        · by_cases hSame : s.stamp = stamp
          · have hShard : l.disk.shards.get stamp = some s := hSame ▸ Table.get_key hs
            rcases hMay p hGet with ⟨rfl, -⟩ | ⟨s', hShard', hTurns⟩
            · cases hShard.symm.trans (hName : l.disk.shards.get stamp = none)
            · cases hShard.symm.trans hShard'
              refine (hHeld t).mpr (Or.inr (Or.inr ?_))
              rw [hTurns]
              exact List.mem_filter.mpr ⟨hMem, by rw [hStays]; rfl⟩
          · exact (hHeld t).mpr (Or.inr (Or.inl ⟨s, hs, hSame, hMem⟩))

/-- A call that may be made keeps the turns. -/
theorem answer {batch : List Turn} {q : Query} {a : q.Answer} (h : l.Sound) (hMay : May batch l q)
    (hBatch : (batch.map Turn.id).Nodup) (hName : q.NewName l) (hMeets : q.Meets l)
    (hAnswer : Answers q l a l') : l'.Sound := by
  cases q with
  | now | instant | walSize | retentionDays =>
      obtain ⟨env, hAnswer⟩ := hAnswer
      cases hAnswer
      exact h
  | call c =>
      rcases Answers.cases hAnswer with ⟨v, -, hWorks⟩ | ⟨e, -, hFails⟩
      · cases c with
        | commit => exact h.commit hMay hBatch hMeets hWorks
        | deleteTurns => exact h.emptied hMay hWorks
        | deleteKeyed keys => exact h.deleteKeyed hWorks
        | removeShard stamp => exact h.removeShard hWorks
        | rename stamp keys => exact h.renamed hMay hName hWorks
        | _ => exact h.same (hWorks.same rfl)
      · exact h.same hFails.same

end Log.Sound

/-! ### Exports -/

/-- The turns that a read gives. -/
def readBy : (q : Query) → q.Answer → Option (List CapturedTurn)
  | .call (.read _ _), .ok turns => some turns
  | _, _ => none

/-- An export reads by its own filter, and what it returns is what its last read
gave. -/
def Honest (f : CaptureFilter) (rest : Reading (List CapturedTurn)) (last : Option (List CapturedTurn)) :
    Prop :=
  rest.wp (fun _ q => ∀ files g, q = .call (.read files g) → g = f)
    (fun q _ a last' => last' = readBy q a) (fun r last' => ∀ turns, r = .ok turns → last' = some turns)
    last

theorem exportTurns_honest (f : CaptureFilter) (last : Option (List CapturedTurn)) :
    Honest f (exportTurns f) last := by
  refine ⟨nofun, fun entries _ _ => ⟨nofun, fun files _ _ => ?_⟩⟩
  cases files with
  | error e => exact nofun
  | ok files =>
      refine ⟨fun _ _ h => by cases h; rfl, fun turns last' hLast => ?_⟩
      cases turns with
      | error e => exact nofun
      | ok turns =>
          intro turns' h
          cases h
          exact hLast

theorem exportTwice_honest (f : CaptureFilter) (last : Option (List CapturedTurn)) :
    Honest f (exportTwice f) last := by
  apply wp_bind.mpr
  apply wp_attempt.mpr
  apply wp_mono (exportTurns_honest f last)
  intro r last' hFirst
  cases r with
  | error e => exact exportTurns_honest f last'
  | ok turns =>
      intro turns' h
      cases h
      exact hFirst turns rfl

/-- What an export returns is what it reads there and then. -/
theorem Honest.returns {f : CaptureFilter} {q : Query} {next : q.Answer → Reading (List CapturedTurn)}
    {last : Option (List CapturedTurn)} (h : Honest f (.query q next) last) {a : q.Answer}
    {turns : List CapturedTurn} (hDone : next a = .done turns) :
    ∃ files, q = .call (.read files f) ∧ readBy q a = some turns := by
  obtain ⟨hFilter, hNext⟩ := h
  have hLast : (next a).wp _ _ _ _ := hNext a _ rfl
  rw [hDone] at hLast
  have hRead : readBy q a = some turns := hLast turns rfl
  unfold readBy at hRead
  split at hRead
  · next files g turns' =>
      exact ⟨files, by rw [hFilter files g rfl], hRead⟩
  · cases hRead

theorem Honest.next {f : CaptureFilter} {q : Query} {next : q.Answer → Reading (List CapturedTurn)}
    {last : Option (List CapturedTurn)} (h : Honest f (.query q next) last) (a : q.Answer) :
    Honest f (next a) (readBy q a) :=
  h.2 a _ rfl

/-! ### Runs -/

section

variable {cfg : ReqlogConfig} {redactBody : List UInt8 → List UInt8} {l l' : DuckLogger}

/-- The exports in progress are honest. -/
def DuckLogger.Candid (l : DuckLogger) : Prop := ∀ e ∈ l.exports, ∃ last, Honest e.filter e.rest last

theorem DuckLogger.Candid.step {act : Act} (h : l.Candid)
    (hStep : l.step cfg redactBody act = some l') : l'.Candid := by
  cases step_stepped hStep with
  | logged | applied | sent | taken | timedOut | called | stopped | restarted => exact h
  | replied =>
      intro e he
      rcases List.mem_append.mp he with hOld | hNew
      · exact h e hOld
      · unfold connected at hNew
        split at hNew
        · cases List.mem_singleton.mp hNew
          exact ⟨none, exportTwice_honest _ none⟩
        · cases hNew
  | @read i env f q next after hAt =>
      have hDrop {e : Export} (he : e ∈ l.exports.drop i) : ∃ last, Honest e.filter e.rest last :=
        h e (List.mem_of_mem_drop he)
      intro e he
      rcases List.mem_append.mp he with he | hAfter
      · rcases List.mem_append.mp he with hBefore | hThis
        · exact h e (List.mem_of_mem_take hBefore)
        · obtain ⟨last, hHonest⟩ := hDrop (hAt ▸ List.mem_cons_self)
          unfold goOn at hThis
          split at hThis
          · next hRest =>
              cases List.mem_singleton.mp hThis
              have hNext := hHonest.next (l.log.answer env q).1
              rw [hRest] at hNext
              exact ⟨_, hNext⟩
          · cases hThis
      · exact hDrop (hAt ▸ List.mem_cons_of_mem _ hAfter)
  | crashed =>
      intro e he
      cases he

/-- What the worker is at keeps the turns. -/
structure DuckLogger.Sound (l : DuckLogger) : Prop where
  log : l.log.Sound
  works : ∀ m rest, l.phase = .busy m rest → ∃ batch : List Turn,
    (batch.map Turn.id).Nodup ∧ Does batch rest (fun _ _ => True) (fun _ => True) l.log

theorem id_rowsFrom {id : Nat} {records : List (Nat × RequestLogRecord)} :
    (rowsFrom cfg id records).map Turn.id = List.range' id records.length := by
  induction records generalizing id with
  | nil => rfl
  | cons r rest ih =>
      rw [rowsFrom, List.map_cons, ih]
      rfl

theorem Worker.rows_nodup (w : Worker) : ((w.rows cfg).map Turn.id).Nodup := by
  rw [Worker.rows, id_rowsFrom]
  exact List.nodup_range'

namespace DuckLogger.Sound

/-- The worker begins with something that keeps the turns. -/
theorem begun (h : l.log.Sound) {m : Option Msg} {rest : Work (Option Worker × Reply)}
    {P : Option Worker × Reply → Log → Prop} {batch : List Turn} (hBatch : (batch.map Turn.id).Nodup)
    (hDoes : Does batch rest P (fun _ => True) l.log) (hLog : l'.log = l.log)
    (hPhase : l'.phase = .busy m rest) : l'.Sound := by
  refine ⟨hLog ▸ h, fun m' rest' hBusy => ⟨batch, hBatch, ?_⟩⟩
  rw [hPhase] at hBusy
  cases hBusy
  rw [hLog]
  exact does_mono hDoes (fun _ _ _ => trivial) fun _ hW => hW

/-- The worker does nothing. -/
theorem rested (h : l'.log.Sound) (hPhase : ∀ m rest, l'.phase ≠ .busy m rest) : l'.Sound :=
  ⟨h, fun m rest hBusy => absurd hBusy (hPhase m rest)⟩

theorem step {act : Act} (h : l.Sound) (hNames : ∀ q ∈ l.asked act, q.NewName l.log)
    (hMeets : ∀ q ∈ l.asked act, q.Meets l.log) (hStep : l.step cfg redactBody act = some l') :
    l'.Sound := by
  cases step_stepped hStep with
  | logged | applied | sent | read => exact ⟨h.log, h.works⟩
  | @taken w m rest hPhase hQueue =>
      exact begun h.log (w.received m).rows_nodup (Worker.serve_does m) rfl rfl
  | @timedOut w hPhase => exact begun h.log w.rows_nodup Worker.turnOver_does rfl rfl
  | restarted =>
      have hNone : (([] : List Turn).map Turn.id).Nodup := List.nodup_nil
      exact begun h.log hNone Worker.openLog_does rfl rfl
  | replied => exact rested h.log fun _ _ => Phase.noConfusion
  | stopped => exact rested h.log fun _ _ => Phase.noConfusion
  | crashed => exact rested (h.log.same ⟨rfl, rfl, rfl⟩) fun _ _ => Phase.noConfusion
  | @called env m q next a log hPhase hAnswer =>
      obtain ⟨batch, hBatch, hMay, hNext⟩ := h.works m _ hPhase
      have hAsked : q ∈ l.asked (.work env) := by
        unfold asked
        rw [hPhase]
        rfl
      refine ⟨h.log.answer hMay hBatch (hNames q hAsked) (hMeets q hAsked) hAnswer, ?_⟩
      intro m' rest' hBusy
      cases hBusy
      exact ⟨batch, hBatch, hNext a log hAnswer⟩

end DuckLogger.Sound

theorem DuckLogger.Sound.run {acts : List Act} (h : l.Sound)
    (hNames : l.Along cfg redactBody (fun log q => q.NewName log) acts)
    (hMeets : l.Along cfg redactBody (fun log q => q.Meets log) acts)
    (hRun : l.run cfg redactBody acts = some l') : l'.Sound := by
  induction acts generalizing l with
  | nil =>
      cases hRun
      exact h
  | cons act rest ih =>
      obtain ⟨l₁, hStep, hRest⟩ := Option.bind_eq_some_iff.mp hRun
      exact ih (h.step hNames.1 hMeets.1 hStep) (hNames.2 l₁ hStep) (hMeets.2 l₁ hStep) hRest

theorem DuckLogger.Candid.run {acts : List Act} (h : l.Candid)
    (hRun : l.run cfg redactBody acts = some l') : l'.Candid := by
  induction acts generalizing l with
  | nil =>
      cases hRun
      exact h
  | cons act rest ih =>
      obtain ⟨l₁, hStep, hRest⟩ := Option.bind_eq_some_iff.mp hRun
      exact ih (h.step hStep) hRest

theorem DuckLogger.sound_new : (new cfg {} 0).Sound :=
  .rested ⟨fun _ => Iff.rfl, List.nodup_nil⟩ fun _ _ => Phase.noConfusion

theorem DuckLogger.candid_new {disk : Disk} {calls : Nat} : (new cfg disk calls).Candid := by
  intro e he
  cases he

end

/-! ### What is read -/

/-- An export without filters takes all turns that are not errors. -/
theorem select_all (scan : List Turn) : (CaptureFilter.select {} scan).Perm
    ((Firsts.fresh Turn.key [] (scan.filter fun t => !t.isError)).map Turn.captured) := by
  have hTakes : CaptureFilter.takes {} = fun t => !t.isError := by
    funext t
    simp [CaptureFilter.takes]
  unfold CaptureFilter.select
  rw [List.filter_eq_self.mpr fun _ _ => by simp [tagsMatch], hTakes]
  exact (List.perm_insertionSort _ _).map _

/-- The same of rows that hold those that are kept and no others. -/
theorem select_perm {kept scan : List Turn}
    (hApart : ((kept.filter fun t => !t.isError).map Turn.key).Nodup)
    (hScan : ∀ t, t.isError = false → (t ∈ scan ↔ t ∈ kept)) :
    (CaptureFilter.select {} scan).Perm ((kept.filter fun t => !t.isError).map Turn.captured) := by
  have hMem (t : Turn) : t ∈ scan.filter (fun t => !t.isError) ↔ t ∈ kept.filter fun t => !t.isError := by
    rw [List.mem_filter, List.mem_filter]
    exact and_congr_left fun hFine => hScan t (by simpa using hFine)
  have hFresh : Firsts.fresh Turn.key [] (kept.filter fun t => !t.isError) =
      kept.filter fun t => !t.isError :=
    Firsts.fresh_eq_self Turn.key hApart fun _ _ => List.not_mem_nil
  refine (select_all scan).trans ?_
  conv_rhs => rw [← hFresh]
  apply Firsts.map_fresh_perm
  · intro k
    simp only [List.mem_map, hMem]
  · intro t ht u hu hKey
    rw [List.inj_on_of_nodup_map hApart ((hMem t).mp ht) hu hKey]

/-- A read of shards gives their turns and those of the table. -/
theorem Log.read_eq {l : Log} {env : Env} {files : List Int} {f : CaptureFilter}
    {turns : List CapturedTurn}
    (h : readBy (.call (.read files f)) (l.answer env (.call (.read files f))).1 = some turns) :
    turns = f.select (env.scan (l.disk.turns ++ files.flatMap l.disk.sealed)) := by
  have hAnswer : (l.answer env (.call (.read files f))).1 = (l.call env (.read files f)).1 := rfl
  rw [hAnswer] at h
  unfold Log.call at h
  split at h
  · cases h
  · split at h
    · cases h
    · next hExecute =>
        unfold Disk.execute at hExecute
        dsimp only at hExecute
        split at hExecute
        · cases hExecute
          cases h
          rfl
        · cases hExecute

theorem Disk.sealed_held {d : Disk} {stamp : Int} {t : Turn} (h : t ∈ d.sealed stamp) : t ∈ d.held := by
  unfold Disk.sealed at h
  cases hGet : d.shards.get stamp with
  | none =>
      rw [hGet] at h
      cases h
  | some s =>
      rw [hGet] at h
      exact Disk.mem_held.mpr (Or.inr ⟨s, (Table.get_eq_some hGet).1, h⟩)

theorem DuckLogger.Along.append {cfg : ReqlogConfig} {redactBody : List UInt8 → List UInt8}
    {P : Log → Query → Prop} {first second : List Act} {l l' : DuckLogger}
    (h : l.Along cfg redactBody P (first ++ second)) (hRun : l.run cfg redactBody first = some l') :
    l.Along cfg redactBody P first ∧ l'.Along cfg redactBody P second := by
  induction first generalizing l with
  | nil =>
      cases hRun
      exact ⟨trivial, h⟩
  | cons act rest ih =>
      obtain ⟨l₁, hStep, hRest⟩ := Option.bind_eq_some_iff.mp hRun
      refine ⟨⟨h.1, fun l₂ hStep₂ => ?_⟩, (ih (h.2 l₁ hStep) hRest).2⟩
      rw [hStep] at hStep₂
      cases hStep₂
      exact (ih (h.2 l₁ hStep) hRest).1

/-- What an export returns is read at that moment, by its own filter. -/
theorem DuckLogger.Candid.returned {l : DuckLogger} {i : Nat} {env : Env} {f : CaptureFilter}
    {turns : List CapturedTurn} (h : l.Candid) (hReturned : l.returned i env = some (f, turns)) :
    ∃ files, l.asked (.read i env) = some (.call (.read files f)) ∧
      turns = f.select (env.scan (l.log.disk.turns ++ files.flatMap l.log.disk.sealed)) := by
  unfold DuckLogger.returned at hReturned
  split at hReturned
  · next f' q next after hAt =>
      split at hReturned
      · next hDone =>
          cases hReturned
          obtain ⟨last, hHonest⟩ : ∃ last, Honest f (.query q next) last :=
            h ⟨f, .query q next⟩ (List.mem_of_mem_drop (hAt ▸ List.mem_cons_self))
          obtain ⟨files, rfl, hRead⟩ := hHonest.returns hDone
          refine ⟨files, ?_, Log.read_eq hRead⟩
          unfold asked
          dsimp only
          rw [hAt]
      · cases hReturned
  · cases hReturned

/-- As long as no turn is flushed that is not told from one that is kept, an
export that looks everywhere returns each turn that is kept once, wherever the
log's process has died before. -/
theorem export_returns_kept {cfg : ReqlogConfig} {redactBody : List UInt8 → List UInt8}
    {acts : List Act} {l : DuckLogger} {i : Nat} {env : Env} {turns : List CapturedTurn}
    (hNames : (DuckLogger.new cfg {} 0).Along cfg redactBody (fun log q => q.NewName log) acts)
    (hMeets : (DuckLogger.new cfg {} 0).Along cfg redactBody (fun log q => q.Meets log)
      (acts ++ [.read i env]))
    (hRun : (DuckLogger.new cfg {} 0).run cfg redactBody acts = some l)
    (hReturned : l.returned i env = some ({}, turns)) :
    turns.Perm ((l.log.kept.filter fun t => !t.isError).map Turn.captured) := by
  obtain ⟨hBefore, hLast⟩ := hMeets.append hRun
  have hSound : l.Sound := DuckLogger.sound_new.run hNames hBefore hRun
  have hCandid : l.Candid := DuckLogger.candid_new.run hRun
  obtain ⟨files, hAsked, rfl⟩ := hCandid.returned hReturned
  have hRead : (Query.call (.read files {})).Meets l.log := hLast.1 _ hAsked
  apply select_perm hSound.log.apart
  intro t hFine
  rw [(env.scan_perm _).mem_iff, hSound.log.held]
  constructor
  · intro ht
    rcases List.mem_append.mp ht with hTurn | hSealed
    · exact Disk.mem_held.mpr (Or.inl hTurn)
    · obtain ⟨stamp, -, hMem⟩ := List.mem_flatMap.mp hSealed
      exact Disk.sealed_held hMem
  · intro ht
    rcases Disk.mem_held.mp ht with hTurn | ⟨s, hs, hMem⟩
    · exact List.mem_append_left _ hTurn
    · by_cases hTold : s.stamp ∈ files
      · apply List.mem_append_right
        rw [List.mem_flatMap]
        exact ⟨s.stamp, hTold, by rwa [Disk.sealed_of_get (Table.get_key hs)]⟩
      · exact hRead s hs hTold t hMem hFine

/-! ### Two turns -/

def sampleRecord (requestBody : List UInt8) (now : Timestamp) : RequestLogRecord where
  ts := now
  requestId := "r".toList
  traceId := none
  installationId := []
  surface := "anthropic".toList
  requestedModel := "m".toList
  decisionModel := "m".toList
  decisionProvider := "p".toList
  upstreamStatus := 200
  isError := false
  requestBytes := 1
  responseBytes := 0
  responseTruncated := false
  requestBody := requestBody
  responseBody := []
  apiKeyId := some "k".toList
  userId := none
  tags := none
  redaction := []

/-- Some calls of the worker, all at one time. -/
def works (n : Nat) (now : Timestamp) : List Act := List.replicate n (.work (.calm now))

/-- The log is opened, and capture is turned on. -/
def opened (now : Timestamp) : List Act :=
  .restart :: works 4 now ++ [.reply, .applyPolicy ⟨true, .none, 30⟩]

/-- A turn is logged, and an export has it flushed. -/
def loggedFor (requestBody : List UInt8) (now : Timestamp) : List Act :=
  [.log (sampleRecord requestBody now), .take, .reply, .send (.exportFor {}), .take] ++ works 5 now ++
    [.reply]

/-- A rotation seals the table, whose rows are deleted only if the worker gets that
far. -/
def sealing (now : Timestamp) : List Act := [.send .rotate, .take] ++ works 4 now

def rotating (now : Timestamp) : List Act := sealing now ++ works 9 now ++ [.reply]

def listing (now : Timestamp) : List Act := [.read 0 (.calm now), .read 0 (.calm now)]

/-- Where a run leaves the log. -/
def stands (acts : List Act) : DuckLogger :=
  ((DuckLogger.new {} {} 0).run {} id acts).getD (.new {} {} 0)

theorem run_stands {acts : List Act} (h : ((DuckLogger.new {} {} 0).run {} id acts).isSome = true) :
    (DuckLogger.new {} {} 0).run {} id acts = some (stands acts) := by
  obtain ⟨l, hl⟩ := Option.isSome_iff_exists.mp h
  rw [stands, hl]
  rfl

/-- How many turns an export returns, and how many are kept. -/
def counted (acts : List Act) (env : Env) : Option (CaptureFilter × Nat) × Nat :=
  (((stands acts).returned 0 env).map fun r => (r.1, r.2.length), (stands acts).log.kept.length)

/-- The worker dies between the shard and the table. -/
def diesRotating : List Act :=
  opened 0 ++ loggedFor [1] 1000 ++ sealing 2000 ++ [.crash .empty] ++ opened 3000 ++
    loggedFor [2] 4000 ++ listing 5000

theorem dies_rotating_exported : ∃ turns : List CapturedTurn, turns.length = 2 ∧
    turns.Perm (((stands diesRotating).log.kept.filter fun t => !t.isError).map Turn.captured) := by
  have hCounted : counted diesRotating (.calm 6000) = (some ({}, 2), 2) := by decide +kernel
  have hFirst : ((stands diesRotating).returned 0 (.calm 6000)).map (fun r => (r.1, r.2.length)) =
      some ({}, 2) := congrArg Prod.fst hCounted
  obtain ⟨⟨f, turns⟩, hReturned, hLength⟩ := Option.map_eq_some_iff.mp hFirst
  obtain ⟨rfl, hTwo⟩ := Prod.ext_iff.mp hLength
  refine ⟨turns, hTwo, ?_⟩
  have hRun : (DuckLogger.new {} {} 0).run {} id diesRotating = some (stands diesRotating) :=
    run_stands (by decide +kernel)
  exact export_returns_kept (by decide +kernel) (by decide +kernel) hRun hReturned

/-- A rotation comes between the look at the shards and the read. -/
def rotatesBehind : List Act :=
  opened 0 ++ loggedFor [1] 1000 ++ [.read 0 (.calm 2000)] ++ rotating 3000 ++ [.read 0 (.calm 4000)]

/-- The ids start over once the table is empty, and it is still the same
microsecond. -/
def startsOver : List Act :=
  opened 0 ++ loggedFor [1] 0 ++ rotating 0 ++ [.crash .empty] ++ opened 0 ++ loggedFor [2] 0 ++
    listing 0

/-- A turn is missed by an export that a rotation overtakes, and by one that takes
two turns for one. -/
theorem turns_missed :
    ((DuckLogger.new {} {} 0).Along {} id (fun log q => q.NewName log) rotatesBehind ∧
      counted rotatesBehind (.calm 5000) = (some ({}, 0), 1)) ∧
    (DuckLogger.new {} {} 0).Along {} id (fun log q => q.NewName log) startsOver ∧
      counted startsOver (.calm 0) = (some ({}, 1), 2) := by
  decide +kernel

end Gateway.Reqlog
