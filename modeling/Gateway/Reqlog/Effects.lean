import Gateway.Reqlog.Worker

/-! What each piece of the worker's code leaves on the disk, and that the calls
that could lose a turn are made only where they do not. -/
namespace Gateway.Reqlog

open Json Store Program

/-- Before a commit the transaction holds the rows of the batch. The table is
emptied when the shards hold its rows. A file is renamed when it holds what the
table does, or what a shard does less the turns of the keys. -/
def May (batch : List Turn) (l : Log) : Query → Prop
  | .call .commit => l.disk.pending = batch
  | .call .deleteTurns => ∀ t ∈ l.disk.turns, ∃ s ∈ l.disk.shards.rows, t ∈ s.turns
  | .call (.rename stamp keys) => ∀ p, l.disk.partials.get stamp = some p →
      (keys = [] ∧ p.turns = l.disk.turns) ∨
        ∃ s, l.disk.shards.get stamp = some s ∧ p.turns = s.turns.filter fun t => !t.keyIn keys
  | _ => True

/-- A call works. -/
def Works (c : Call) (l : Log) (v : c.Result) (l' : Log) : Prop :=
  ∃ env : Env, l.disk.execute env c = (.ok v, l'.disk) ∧ l'.kept = l.keptAfter c l'.disk ∧
    l'.listing = l.listingAfter c (.ok v)

theorem Works.disk {c : Call} {l l' : Log} {v : c.Result} (h : Works c l v l') :
    ∃ env : Env, l'.disk = (l.disk.execute env c).2 := by
  obtain ⟨env, hExecute, -⟩ := h
  exact ⟨env, by rw [hExecute]⟩

/-- A call fails. -/
def Fails (c : Call) (l : Log) (l' : Log) : Prop :=
  (l'.disk = l.disk ∨ ∃ env : Env, l'.disk = l.disk.failed env c) ∧ l'.kept = l.kept ∧
    ∀ e, l'.listing = l.listingAfter c (.error e)

theorem execute_error {env : Env} {c : Call} {d d' : Disk} {e : Str}
    (h : d.execute env c = (.error e, d')) : d' = d := by
  cases c <;> simp only [Disk.execute] at h <;> (try split at h) <;> (try split at h) <;> grind

theorem Answers.cases {c : Call} {l l' : Log} {a : Except Str c.Result}
    (h : Answers (.call c) l a l') :
    (∃ v, a = .ok v ∧ Works c l v l') ∨ ∃ e, a = .error e ∧ Fails c l l' := by
  obtain ⟨env, hAnswer⟩ := h
  have hCall : l.call env c = (a, l') := hAnswer
  have hListing : ∀ e e', l.listingAfter c (.error e) = l.listingAfter c (.error e') := by
    intro e e'
    cases c <;> rfl
  unfold Log.call at hCall
  split at hCall
  · cases hCall
    exact Or.inr ⟨_, rfl, Or.inr ⟨env, rfl⟩, rfl, fun e => hListing _ e⟩
  · split at hCall
    · next hExecute =>
        cases hCall
        exact Or.inr ⟨_, rfl, Or.inl (execute_error hExecute), rfl, fun e => hListing _ e⟩
    · next hExecute =>
        cases hCall
        exact Or.inl ⟨_, rfl, env, hExecute, rfl, rfl⟩

/-! ### Rules -/

section

variable {α β : Type}

def outcome (P : α → Log → Prop) (W : Worker → Prop) : Except (Str × Worker) α → Log → Prop
  | .ok v, l => P v l
  | .error e, _ => W e.2

/-- All calls are ones that may be made. `P` holds of the result and the log, and
`W` of the worker that an error leaves. -/
def Does (batch : List Turn) (p : Work α) (P : α → Log → Prop) (W : Worker → Prop) (l : Log) : Prop :=
  p.wp (May batch) Answers (outcome P W) l

variable {batch : List Turn} {P : α → Log → Prop} {W W' : Worker → Prop} {l : Log}

theorem does_done {v : α} (h : P v l) : Does batch (done v) P W l := h

theorem does_fail {e : Str × Worker} (h : W e.2) : Does batch (fail e : Work α) P W l := h

theorem does_mono {p : Work α} {P' : α → Log → Prop} (h : Does batch p P W l)
    (hOk : ∀ v l', P v l' → P' v l') (hErr : ∀ w, W w → W' w) : Does batch p P' W' l := by
  apply wp_mono h
  intro r l' hPost
  cases r with
  | ok v => exact hOk v l' hPost
  | error e => exact hErr e.2 hPost

theorem does_bind {p : Work β} {f : β → Work α}
    (h : Does batch p (fun v l' => Does batch (f v) P W l') W l) : Does batch (p >>= f) P W l := by
  apply wp_bind.mpr
  apply wp_mono h
  intro r l' hPost
  cases r with
  | ok v => exact hPost
  | error e => exact hPost

theorem does_attempt (W' : Worker → Prop) {p : Work β} {f : Except (Str × Worker) β → Work α}
    (h : Does batch p (fun v l' => Does batch (f (.ok v)) P W l') W' l)
    (hErr : ∀ e l', W' e.2 → Does batch (f (.error e)) P W l') :
    Does batch (p.attempt >>= f) P W l := by
  unfold Does at h
  apply wp_bind.mpr
  apply wp_attempt.mpr
  apply wp_mono h
  intro r l' hPost
  cases r with
  | ok v => exact hPost
  | error e => exact hErr e l' hPost

theorem does_query {c : Call} {next : Except Str c.Result → Work α} (hMay : May batch l (.call c))
    (hOk : ∀ v l', Works c l v l' → Does batch (next (.ok v)) P W l')
    (hErr : ∀ e l', Fails c l l' → Does batch (next (.error e)) P W l') :
    Does batch (query (.call c) next) P W l := by
  refine ⟨hMay, fun a l' hAnswer => ?_⟩
  rcases Answers.cases hAnswer with ⟨v, rfl, hWorks⟩ | ⟨e, rfl, hFails⟩
  · exact hOk v l' hWorks
  · exact hErr e l' hFails

theorem does_call {w : Worker} {context : String} {c : Call} {P : c.Result → Log → Prop}
    (hMay : May batch l (.call c)) (hOk : ∀ v l', Works c l v l' → P v l') (hErr : W w) :
    Does batch (w.call context c) P W l :=
  does_query hMay hOk fun _ _ _ => hErr

def Query.isCall : Query → Bool
  | .call _ => true
  | _ => false

/-- A clock, or a number that the worker reads. -/
theorem does_ask {q : Query} {next : q.Answer → Work α} (hAsk : q.isCall = false)
    (h : ∀ a, Does batch (next a) P W l) : Does batch (query q next) P W l := by
  cases q with
  | call c => cases hAsk
  | now | instant | walSize | retentionDays =>
      refine ⟨trivial, fun a l' hAnswer => ?_⟩
      obtain ⟨env, hAnswer⟩ := hAnswer
      cases hAnswer
      exact h _

end

/-! ### Flushing -/

/-- The table, the shards and what is kept are the same. -/
structure Log.Same (l l' : Log) : Prop where
  turns : l'.disk.turns = l.disk.turns
  shards : l'.disk.shards = l.disk.shards
  kept : l'.kept = l.kept

theorem Log.Same.refl (l : Log) : l.Same l := ⟨rfl, rfl, rfl⟩

theorem Log.Same.trans {l l' l'' : Log} (h : l.Same l') (h' : l'.Same l'') : l.Same l'' :=
  ⟨h'.turns.trans h.turns, h'.shards.trans h.shards, h'.kept.trans h.kept⟩

theorem Fails.same {c : Call} {l l' : Log} (h : Fails c l l') : l.Same l' := by
  obtain ⟨hDisk, hKept, -⟩ := h
  rcases hDisk with hDisk | ⟨env, hDisk⟩
  · exact ⟨by rw [hDisk], by rw [hDisk], hKept⟩
  · constructor
    · rw [hDisk]
      cases c <;> simp only [Disk.failed] <;> split <;> rfl
    · rw [hDisk]
      cases c <;> simp only [Disk.failed] <;> split <;> rfl
    · exact hKept

/-- The calls that change neither the table nor a shard. -/
def Call.quiet : Call → Bool
  | .commit | .rename _ _ | .deleteTurns | .deleteKeyed _ | .removeShard _ => false
  | _ => true

theorem Works.same {c : Call} {l l' : Log} {v : c.Result} (h : Works c l v l')
    (hQuiet : c.quiet = true) : l.Same l' := by
  obtain ⟨env, hExecute, hKept, -⟩ := h
  have hDisk : (l.disk.execute env c).2 = l'.disk := by rw [hExecute]
  have hSame : l'.disk.turns = l.disk.turns ∧ l'.disk.shards = l.disk.shards := by
    rw [← hDisk]
    cases c <;> simp only [Call.quiet, Bool.false_eq_true] at hQuiet <;>
      simp only [Disk.execute, Disk.copyTo, and_self] <;> (try split) <;> (try split) <;>
      exact ⟨rfl, rfl⟩
  refine ⟨hSame.1, hSame.2, ?_⟩
  rw [hKept]
  cases c <;> simp only [Log.keptAfter] <;> exact absurd hQuiet Bool.false_ne_true

namespace Worker

variable {cfg : ReqlogConfig} {batch : List Turn}

/-- The rows are in the transaction, and nothing else is different. -/
structure Inserted (rows : List Turn) (l l' : Log) : Prop where
  disk : l'.disk = { l.disk with pending := l.disk.pending ++ rows }
  kept : l'.kept = l.kept
  listing : l'.listing = l.listing

theorem insertAll_does {records : List (Nat × RequestLogRecord)} {w : Worker} {l : Log} :
    Does batch (insertAll cfg records w)
      (fun w' l' => w' = { w with nextId := w.nextId + records.length } ∧
        Inserted (rowsFrom cfg w.nextId records) l l')
      (fun w' => w'.buf = w.buf) l := by
  induction records generalizing w l with
  | nil => exact ⟨rfl, by simp [rowsFrom], rfl, rfl⟩
  | cons r rest ih =>
      apply does_bind
      refine does_call trivial (fun v l' hWorks => ?_) rfl
      obtain ⟨env, hDisk⟩ := hWorks.disk
      obtain ⟨-, -, hKept, hListing⟩ := hWorks
      refine does_mono ih (fun w' l'' h => ?_) fun w' h => h
      obtain ⟨rfl, hInserted⟩ := h
      refine ⟨by simp [Nat.add_comm, Nat.add_left_comm], ?_, ?_, ?_⟩
      · rw [hInserted.disk, hDisk]
        simp [rowsFrom, Disk.execute]
      · exact hInserted.kept.trans hKept
      · exact hInserted.listing.trans hListing

/-- The rows are in the table, and they are kept. -/
structure Flushed (rows : List Turn) (l l' : Log) : Prop where
  turns : l'.disk.turns = l.disk.turns ++ rows
  shards : l'.disk.shards = l.disk.shards
  kept : l'.kept = l.kept ++ rows
  listing : l'.listing = l.listing

theorem endInsert_does {w : Worker} {l : Log} (hPending : l.disk.pending = batch) :
    Does batch (endInsert (.ok w)) (fun w' l' => w' = w ∧ Flushed batch l l')
      (fun w' => w' = w) l := by
  apply does_bind
  refine does_call hPending (fun v l' hWorks => ?_) rfl
  obtain ⟨env, hDisk⟩ := hWorks.disk
  obtain ⟨-, -, hKept, hListing⟩ := hWorks
  refine ⟨rfl, ?_, ?_, ?_, hListing⟩
  · rw [hDisk, ← hPending]
    rfl
  · rw [hDisk]
    rfl
  · rw [hKept, ← hPending]
    rfl

/-- The worker once its buffer is flushed. -/
def flushed (w : Worker) : Worker := { w with buf := [], nextId := w.nextId + w.buf.length }

theorem flush_does {w : Worker} {l : Log} :
    Does (w.rows cfg) (w.flush cfg) (fun w' l' => w' = w.flushed ∧ Flushed (w.rows cfg) l l')
      (fun w' => w'.buf = []) l := by
  unfold flush
  cases hBuf : w.buf with
  | nil =>
      refine does_done ⟨?_, ?_⟩
      · cases w
        cases hBuf
        rfl
      · have hRows : w.rows cfg = [] := by rw [rows, hBuf, rowsFrom]
        rw [hRows]
        exact ⟨by simp, rfl, by simp, rfl⟩
  | cons r rest =>
      rw [← hBuf]
      have hSome : w.buf.isEmpty = false := by rw [hBuf]; rfl
      rw [if_neg (by rw [hSome]; exact Bool.false_ne_true)]
      apply does_bind
      refine does_call trivial (fun _ l₁ hBegin => ?_) rfl
      refine does_attempt (fun w' => w'.buf = []) ?_ ?_
      · apply does_bind
        refine does_call trivial (fun _ l₂ hPrepare => ?_) rfl
        refine does_mono insertAll_does (fun w' l₃ h => ?_) fun _ h => h
        obtain ⟨rfl, hInserted⟩ := h
        obtain ⟨_, hDisk₁⟩ := hBegin.disk
        obtain ⟨_, hDisk₂⟩ := hPrepare.disk
        have hDisk : l₃.disk = { l.disk with pending := w.rows cfg } := by
          rw [hInserted.disk, hDisk₂, hDisk₁]
          simp [Disk.execute, rows]
        have hKept : l₃.kept = l.kept :=
          hInserted.kept.trans (hPrepare.choose_spec.2.1.trans hBegin.choose_spec.2.1)
        have hListing : l₃.listing = l.listing :=
          hInserted.listing.trans (hPrepare.choose_spec.2.2.trans hBegin.choose_spec.2.2)
        refine does_mono (endInsert_does (by rw [hDisk])) (fun w' l' h => ?_) ?_
        · obtain ⟨rfl, hFlushed⟩ := h
          refine ⟨rfl, ?_, ?_, ?_, ?_⟩
          · rw [hFlushed.turns, hDisk]
          · rw [hFlushed.shards, hDisk]
          · rw [hFlushed.kept, hKept]
          · rw [hFlushed.listing, hListing]
        · rintro w' rfl
          rfl
      · intro e l' hBuf
        exact does_query trivial (fun _ _ _ => does_fail hBuf) fun _ _ _ => does_fail hBuf

theorem flush_empty {w : Worker} (h : w.buf = []) : w.flush cfg = done w := by
  rw [flush, h]
  rfl

/-! ### Rotating -/

section

variable {W : Worker → Prop} {l : Log}

theorem removePartials_does {entries : List (Option Path)} :
    Does batch (removePartials entries) (fun _ l' => l.Same l') W l := by
  induction entries generalizing l with
  | nil => exact does_done (Log.Same.refl l)
  | cons entry rest ih =>
      have hRest {l'} (h : l.Same l') : Does batch (removePartials rest) (fun _ l'' => l.Same l'') W l' :=
        does_mono ih (fun _ _ hNext => h.trans hNext) fun _ hW => hW
      rcases entry with _ | _ | stamp
      · exact ih
      · exact ih
      · exact does_query trivial (fun _ _ hWorks => hRest (hWorks.same rfl))
          fun _ _ hFails => hRest hFails.same

theorem removePartialShards_does : Does batch removePartialShards (fun _ l' => l.Same l') W l := by
  refine does_query trivial (fun entries l' hWorks => ?_) fun _ _ hFails => does_done hFails.same
  exact does_mono removePartials_does (fun _ _ h => (hWorks.same rfl).trans h) fun _ hW => hW

theorem cleanedUp_does {p : Work Unit} {P : Unit → Log → Prop} (h : Does batch p P W l) :
    Does batch (cleanedUp p) P W l := by
  refine does_attempt W (does_mono h (fun _ _ hP => hP) fun _ hW => hW) ?_
  intro e l' hW
  apply does_bind
  exact does_mono removePartialShards_does (fun _ _ _ => does_fail hW) fun _ hW => hW

/-- The rows of the table stand in the shards as well. -/
def AllSealed (l : Log) : Prop := ∀ t ∈ l.disk.turns, ∃ s ∈ l.disk.shards.rows, t ∈ s.turns

theorem sealShard_does {w : Worker} {stamp : Int} (hW : W w) :
    Does batch (w.sealShard stamp) (fun _ l' => AllSealed l') W l := by
  apply cleanedUp_does
  apply does_bind
  refine does_call trivial (fun _ l₁ hCopy => ?_) hW
  obtain ⟨env, hDisk⟩ := hCopy.disk
  have hCopied : ∃ p, l₁.disk.partials.get stamp = some p ∧ p.turns = l₁.disk.turns := by
    rw [hDisk]
    exact ⟨_, (Table.get_put _ _).trans (if_pos rfl), rfl⟩
  obtain ⟨p, hGet, hTurns⟩ := hCopied
  refine does_call ?_ (fun _ l₂ hRename => ?_) hW
  · intro q hq
    rw [hGet] at hq
    cases hq
    exact Or.inl ⟨rfl, hTurns⟩
  · obtain ⟨_, hDisk₂⟩ := hRename.disk
    simp only [Disk.execute, hGet] at hDisk₂
    intro t ht
    rw [hDisk₂] at ht ⊢
    exact ⟨p, Table.mem_put.mpr (Or.inr rfl), hTurns ▸ ht⟩

theorem sealTurns_does {w : Worker} (hW : W w) :
    Does batch (w.sealTurns l.disk.turns.length) (fun _ l' => AllSealed l') W l := by
  unfold sealTurns
  split
  · exact does_ask rfl fun _ => sealShard_does hW
  · next hNone =>
      apply does_done
      intro t ht
      exact absurd (List.length_pos_of_mem ht) hNone

theorem pruneShards_does {cutoff : Timestamp} {entries : List (Option Path)} :
    Does batch (pruneShards cutoff entries) (fun _ _ => True) W l := by
  induction entries generalizing l with
  | nil => exact trivial
  | cons entry rest ih =>
      rcases entry with _ | stamp | _
      · exact ih
      · apply does_bind
        refine does_query trivial (fun modified _ _ => ?_) fun _ _ _ => ih
        unfold pruneShard
        dsimp only
        split
        · exact does_query trivial (fun _ _ _ => ih) fun _ _ _ => ih
        · exact ih
      · exact ih

theorem prune_does : Does batch prune (fun _ _ => True) W l := by
  apply does_bind
  refine does_mono removePartialShards_does (fun _ _ _ => ?_) fun _ hW => hW
  refine does_ask rfl fun days => ?_
  show Does batch (pruneBefore days) _ _ _
  unfold pruneBefore
  split
  · exact trivial
  · exact does_ask rfl fun _ => does_query trivial (fun _ _ _ => pruneShards_does) fun _ _ _ => trivial

theorem rotate_does {w : Worker} (hBatch : batch = w.rows cfg ∨ w.buf = []) :
    Does batch (w.rotate cfg) (fun w' _ => w'.buf = []) (fun w' => w'.buf = []) l := by
  have hFlush : Does batch (w.flush cfg) (fun w' _ => w'.buf = []) (fun w' => w'.buf = []) l := by
    rcases hBatch with rfl | hEmpty
    · exact does_mono flush_does (fun _ _ h => by rw [h.1]; rfl) fun _ h => h
    · rw [flush_empty hEmpty]
      exact hEmpty
  apply does_bind
  refine does_mono hFlush (fun w' l₁ hBuf => ?_) fun _ h => h
  apply does_bind
  refine does_call trivial (fun count l₂ hCount => ?_) hBuf
  obtain ⟨env, hExecute, -⟩ := hCount
  obtain ⟨hLength, hDisk⟩ := Prod.ext_iff.mp hExecute
  have hSame : l₁.disk = l₂.disk := hDisk
  have hTurns : l₂.disk.turns.length = count := by
    rw [← hSame]
    exact Except.ok.inj hLength
  subst hTurns
  apply does_bind
  refine does_mono (sealTurns_does hBuf) (fun _ l₃ hSealed => ?_) fun _ h => h
  apply does_bind
  refine does_call hSealed (fun _ _ _ => ?_) hBuf
  apply does_bind
  refine does_call trivial (fun _ _ _ => ?_) hBuf
  apply does_bind
  refine does_mono prune_does (fun _ _ _ => ?_) fun _ h => h
  exact does_ask rfl fun _ => does_ask rfl fun _ => does_done hBuf

theorem logged_does {p : Work Worker} {P : Worker → Prop}
    (h : Does batch p (fun w' _ => P w') P l) : Does batch (logged p) (fun w' _ => P w') W l :=
  does_attempt _ (does_mono h (fun _ _ hP => does_done hP) fun _ hP => hP) fun _ _ hP => does_done hP

theorem maybeRotate_does {w : Worker} (hBuf : w.buf = []) :
    Does batch (w.maybeRotate cfg) (fun w' _ => w'.buf = []) W l := by
  refine does_ask rfl fun now => does_ask rfl fun instant => does_ask rfl fun walSize => ?_
  split
  · exact logged_does (rotate_does (Or.inr hBuf))
  · exact does_done hBuf

theorem turnOver_does {w : Worker} :
    Does (w.rows cfg) (w.turnOver cfg) (fun r _ => ∀ w', r.1 = some w' → w'.buf = []) W l := by
  apply does_bind
  have hFlush : Does (w.rows cfg) (w.flush cfg) (fun w' _ => w'.buf = []) (fun w' => w'.buf = []) l :=
    does_mono flush_does (fun _ _ h => by rw [h.1]; rfl) fun _ h => h
  refine does_mono (logged_does hFlush) (fun w' l₁ hBuf => ?_) fun _ hW => hW
  apply does_bind
  refine does_mono (maybeRotate_does hBuf) (fun w'' l₂ hBuf => ?_) fun _ hW => hW
  apply does_done
  intro w₃ hw
  cases hw
  exact hBuf

end

/-! ### Forgetting -/

def without (keys : List Id) (turns : List Turn) : List Turn := turns.filter fun t => !t.keyIn keys

/-- The turns of the keys are gone from the shards that `p` picks, and nothing
else is different. -/
structure ErasedIn (keys : List Id) (p : Int → Bool) (l l' : Log) : Prop where
  turns : l'.disk.turns = l.disk.turns
  listing : l'.listing = l.listing
  shards : ∀ stamp, (l'.disk.shards.get stamp).map Shard.turns =
    ((l.disk.shards.get stamp).map Shard.turns).map fun turns =>
      if p stamp then without keys turns else turns

section

variable {W : Worker → Prop} {l : Log} {keys : List Id}

theorem without_without (turns : List Turn) : without keys (without keys turns) = without keys turns := by
  simp [without, List.filter_filter]

theorem ErasedIn.trans {p p' : Int → Bool} {l' l'' : Log} (h : ErasedIn keys p l l')
    (h' : ErasedIn keys p' l' l'') : ErasedIn keys (fun stamp => p stamp || p' stamp) l l'' := by
  refine ⟨h'.turns.trans h.turns, h'.listing.trans h.listing, fun stamp => ?_⟩
  rw [h'.shards, h.shards, Option.map_map]
  congr 1
  funext turns
  cases p stamp <;> cases p' stamp <;> simp [without_without]

/-- Nothing changes where there is nothing to erase. -/
theorem erasedIn_same {p : Int → Bool} {l' : Log} (h : l.Same l') (hListing : l'.listing = l.listing)
    (hNone : ∀ stamp s, p stamp = true → l.disk.shards.get stamp = some s →
      without keys s.turns = s.turns) : ErasedIn keys p l l' := by
  refine ⟨h.turns, hListing, fun stamp => ?_⟩
  rw [h.shards]
  cases hGet : l.disk.shards.get stamp with
  | none => rfl
  | some s =>
      rw [Option.map_some, Option.map_some]
      split
      · next hp => rw [hNone stamp s hp hGet]
      · rfl

theorem without_of_count {turns : List Turn} (h : turns.countP (Turn.keyIn keys) = 0) :
    without keys turns = turns := by
  apply List.filter_eq_self.mpr
  intro t ht
  have hNot := List.countP_eq_zero.mp h t ht
  simpa using hNot

theorem Turn.keyIn_of_none {t : Turn} (h : t.apiKeyId = none) : t.keyIn keys = false := by
  rw [Turn.keyIn, h]
  rfl

/-- A copy of a shard is there, less the turns of the keys. -/
def Copied (keys : List Id) (stamp : Int) (s : Shard) (l : Log) : Prop :=
  l.disk.shards.get stamp = some s ∧
    ∃ p, l.disk.partials.get stamp = some p ∧ p.stamp = stamp ∧ p.turns = without keys s.turns

theorem keepTime_does {w : Worker} {stamp : Int} {s : Shard} {l₀ : Log} (hW : W w)
    (hCopied : Copied keys stamp s l) (hSame : l₀.Same l) (hListing : l.listing = l₀.listing)
    (sealedAt : Except Str Timestamp) :
    Does batch (w.keepTime stamp sealedAt)
      (fun _ l' => Copied keys stamp s l' ∧ l₀.Same l' ∧ l'.listing = l₀.listing) W l := by
  cases sealedAt with
  | error e => exact does_done ⟨hCopied, hSame, hListing⟩
  | ok time =>
      refine does_call trivial (fun _ l' hWorks => ?_) hW
      have hAfter := hWorks.same rfl
      refine ⟨⟨by rw [hAfter.shards]; exact hCopied.1, ?_⟩, hSame.trans hAfter,
        hWorks.choose_spec.2.2.trans hListing⟩
      obtain ⟨p, hGet, hStamp, hTurns⟩ := hCopied.2
      obtain ⟨env, hDisk⟩ := hWorks.disk
      simp only [Disk.execute, hGet] at hDisk
      refine ⟨{ p with modified := time }, ?_, hStamp, hTurns⟩
      rw [hDisk]
      exact (Table.get_put _ _).trans (if_pos hStamp.symm)

theorem rewrite_does {w : Worker} {stamp : Int} {s : Shard} (hW : W w)
    (hGet : l.disk.shards.get stamp = some s) (sealedAt : Except Str Timestamp) :
    Does batch (w.rewrite keys stamp sealedAt)
      (fun _ l' => ErasedIn keys (fun other => decide (other = stamp)) l l') W l := by
  apply cleanedUp_does
  apply does_bind
  refine does_call trivial (fun _ l₁ hCopy => ?_) hW
  have hSame := hCopy.same rfl
  have hCopied : Copied keys stamp s l₁ := by
    obtain ⟨env, hDisk⟩ := hCopy.disk
    simp only [Disk.execute, hGet] at hDisk
    refine ⟨by rw [hSame.shards, hGet], ?_⟩
    rw [hDisk]
    exact ⟨_, (Table.get_put _ _).trans (if_pos rfl), rfl, rfl⟩
  apply does_bind
  refine does_mono (keepTime_does hW hCopied hSame hCopy.choose_spec.2.2 sealedAt)
    (fun _ l₂ h => ?_) fun _ hW => hW
  obtain ⟨⟨hShard, p, hPartial, hStamp, hTurns⟩, hSame, hListing⟩ := h
  refine does_call ?_ (fun _ l₃ hRename => ?_) hW
  · intro q hq
    rw [hPartial] at hq
    cases hq
    exact Or.inr ⟨s, hShard, hTurns⟩
  · obtain ⟨env, hDisk⟩ := hRename.disk
    simp only [Disk.execute, hPartial] at hDisk
    refine ⟨by rw [hDisk]; exact hSame.turns, hRename.choose_spec.2.2.trans hListing, fun other => ?_⟩
    rw [hDisk]
    dsimp only
    rw [Table.get_put, hStamp]
    by_cases hOther : other = stamp
    · rw [if_pos hOther, hOther, hGet]
      simp [hTurns]
    · rw [if_neg hOther, hSame.shards]
      simp [hOther, Function.comp_def]

theorem eraseKeyed_does {w : Worker} {stamp : Int} {s : Shard} (hW : W w)
    (hGet : l.disk.shards.get stamp = some s) :
    Does batch (w.eraseKeyed keys stamp s.keyed.toNat)
      (fun _ l' => ErasedIn keys (fun other => decide (other = stamp)) l l') W l := by
  unfold eraseKeyed
  have hOne {l' : Log} (h : l.Same l') (hListing : l'.listing = l.listing)
      (hNone : without keys s.turns = s.turns) :
      ErasedIn keys (fun other => decide (other = stamp)) l l' := by
    refine erasedIn_same h hListing fun other s' hOther hGet' => ?_
    rw [of_decide_eq_true hOther, hGet] at hGet'
    cases hGet'
    exact hNone
  split
  · next hKeyed =>
      refine does_done (hOne (Log.Same.refl l) rfl ?_)
      have hUnkeyed : s.keyed = false := by
        cases h : s.keyed with
        | false => rfl
        | true => rw [h] at hKeyed; cases hKeyed
      apply List.filter_eq_self.mpr
      intro t ht
      rw [Turn.keyIn_of_none (s.unkeyed hUnkeyed t ht)]
      rfl
  · apply does_bind
    refine does_call trivial (fun held l₁ hCount => ?_) hW
    have hSame := hCount.same rfl
    have hListing : l₁.listing = l.listing := hCount.choose_spec.2.2
    obtain ⟨env, hExecute, -⟩ := hCount
    simp only [Disk.execute, hGet] at hExecute
    have hHeld : s.turns.countP (Turn.keyIn keys) = held := Except.ok.inj (Prod.ext_iff.mp hExecute).1
    subst hHeld
    show Does batch (w.eraseHeld keys stamp (s.turns.countP (Turn.keyIn keys))) _ W l₁
    unfold eraseHeld
    split
    · next hNone => exact does_done (hOne hSame hListing (without_of_count hNone))
    · apply does_bind
      have hRewrite (sealedAt : Except Str Timestamp) {l₂ : Log} (h : l.Same l₂)
          (hListing : l₂.listing = l.listing) :
          Does batch (w.rewrite keys stamp sealedAt)
            (fun _ l' => ErasedIn keys (fun other => decide (other = stamp)) l l') W l₂ := by
        refine does_mono (rewrite_does hW (by rw [h.shards, hGet]) sealedAt) (fun _ l₃ hErased => ?_)
          fun _ hW => hW
        refine ⟨hErased.turns.trans h.turns, hErased.listing.trans hListing, fun other => ?_⟩
        rw [hErased.shards, h.shards]
      refine does_query trivial (fun _ _ hWorks => ?_) fun _ _ hFails => ?_
      · exact does_mono (hRewrite _ (hSame.trans (hWorks.same rfl))
          (hWorks.choose_spec.2.2.trans hListing)) (fun _ _ h => does_done h) fun _ hW => hW
      · exact does_mono (hRewrite _ (hSame.trans hFails.same)
          ((hFails.2.2 []).trans hListing)) (fun _ _ h => does_done h) fun _ hW => hW

/-- The shards that a listing has. -/
def listed (entries : List (Option Path)) (stamp : Int) : Bool := entries.contains (some (.shard stamp))

theorem eraseShards_does {w : Worker} (hW : W w) {entries : List (Option Path)} {forgotten : Nat} :
    Does batch (w.eraseShards keys entries forgotten)
      (fun _ l' => ErasedIn keys (listed entries) l l') W l := by
  induction entries generalizing l forgotten with
  | nil => exact does_done (erasedIn_same (Log.Same.refl l) rfl fun _ _ h => absurd h Bool.false_ne_true)
  | cons entry rest ih =>
      have hOther (h : ∀ stamp, entry ≠ some (.shard stamp)) {l' : Log}
          (hRest : ErasedIn keys (listed rest) l l') : ErasedIn keys (listed (entry :: rest)) l l' := by
        refine ⟨hRest.turns, hRest.listing, fun stamp => ?_⟩
        have hSame : listed (entry :: rest) stamp = listed rest stamp := by
          simp [listed, Ne.symm (h stamp)]
        rw [hRest.shards, hSame]
      rcases entry with _ | stamp | stamp
      · exact does_mono ih (fun _ _ h => hOther nofun h) fun _ hW => hW
      · apply does_bind
        refine does_call trivial (fun keyed l₁ hColumns => ?_) hW
        have hSame := hColumns.same rfl
        have hListing : l₁.listing = l.listing := hColumns.choose_spec.2.2
        obtain ⟨env, hExecute, -⟩ := hColumns
        cases hGet : l.disk.shards.get stamp with
        | none =>
            simp only [Disk.execute, hGet] at hExecute
            cases (Prod.ext_iff.mp hExecute).1
        | some s =>
            simp only [Disk.execute, hGet] at hExecute
            have hKeyed : s.keyed.toNat = keyed := Except.ok.inj (Prod.ext_iff.mp hExecute).1
            subst hKeyed
            apply does_bind
            refine does_mono (eraseKeyed_does hW (by rw [hSame.shards, hGet])) (fun held l₂ hErased => ?_)
              fun _ hW => hW
            refine does_mono ih (fun _ l₃ hRest => ?_) fun _ hW => hW
            have hBoth := hErased.trans hRest
            refine ⟨hBoth.turns.trans hSame.turns, hBoth.listing.trans hListing, fun other => ?_⟩
            rw [hBoth.shards, hSame.shards]
            congr 1
            funext turns
            simp [listed]
      · exact does_mono ih (fun _ _ h => hOther nofun h) fun _ hW => hW

/-- The turns of the keys are gone from the table, and from the shards that were
listed. -/
structure Forgot (keys : List Id) (l l' : Log) : Prop where
  turns : l'.disk.turns = without keys l.disk.turns
  shards : ∀ stamp, (l'.disk.shards.get stamp).map Shard.turns =
    ((l.disk.shards.get stamp).map Shard.turns).map fun turns =>
      if listed l'.listing stamp then without keys turns else turns

theorem forget_does {w : Worker} (hW : W w) :
    Does batch (w.forget keys) (fun _ l' => Forgot keys l l') W l := by
  apply does_bind
  refine does_call trivial (fun forgotten l₁ hDelete => ?_) hW
  obtain ⟨env, hDisk⟩ := hDelete.disk
  have hTurns : l₁.disk.turns = without keys l.disk.turns := by rw [hDisk]; rfl
  have hShards : l₁.disk.shards = l.disk.shards := by rw [hDisk]; rfl
  refine does_query trivial (fun entries l₂ hRead => ?_) fun _ l₂ hFails => ?_
  · have hSame := hRead.same rfl
    have hListing : l₂.listing = entries := hRead.choose_spec.2.2
    apply does_bind
    refine does_mono (eraseShards_does hW) (fun n l₃ hErased => ?_) fun _ hW => hW
    apply does_bind
    refine does_call trivial (fun _ l₄ hCheckpoint => ?_) hW
    have hLast := hCheckpoint.same rfl
    have hEntries : l₄.listing = entries :=
      hCheckpoint.choose_spec.2.2.trans (hErased.listing.trans hListing)
    refine does_done ⟨?_, fun stamp => ?_⟩
    · rw [hLast.turns, hErased.turns, hSame.turns, hTurns]
    · rw [hLast.shards, hErased.shards, hSame.shards, hShards, hEntries]
  · have hListing : l₂.listing = [] := hFails.2.2 []
    refine does_done ⟨by rw [hFails.same.turns, hTurns], fun stamp => ?_⟩
    rw [hFails.same.shards, hShards, hListing]
    simp [listed, Function.comp_def]

/-! ### Messages -/

/-- The worker once it has taken a message. -/
def received (w : Worker) : Msg → Worker
  | .record call r => { w with buf := w.buf ++ [(call, r)] }
  | _ => w

theorem afterFlush_does {α : Type} {w : Worker} {p : Worker → Work α} {reply : Except Str α → Reply}
    {P : Option Worker × Reply → Log → Prop}
    (hOk : ∀ l₁, Flushed (w.rows cfg) l l₁ → Does (w.rows cfg) (p w.flushed)
      (fun v l' => P (some w.flushed, reply (.ok v)) l') (fun w' => w'.buf = []) l₁)
    (hErr : ∀ e w' l', w'.buf = [] → P (some w', reply (.error e)) l') :
    Does (w.rows cfg) (w.afterFlush cfg p reply) P W l := by
  refine does_attempt (fun w' => w'.buf = []) ?_ fun e l' hBuf => does_done (hErr _ _ _ hBuf)
  apply does_bind
  refine does_mono flush_does (fun w' l₁ h => ?_) fun _ h => h
  obtain ⟨rfl, hFlushed⟩ := h
  apply does_bind
  exact does_mono (hOk l₁ hFlushed) (fun v l' hP => does_done (does_done hP)) fun _ h => h

/-- What a message leaves of the buffer. -/
def Kept (w : Worker) (r : Option Worker × Reply) : Prop :=
  ∀ w', r.1 = some w' → w'.buf = [] ∨ w'.buf = w.buf

theorem afterFlush_kept {α : Type} {w : Worker} {p : Worker → Work α} {reply : Except Str α → Reply}
    (hp : ∀ l₁, Does (w.rows cfg) (p w.flushed) (fun _ _ => True) (fun w' => w'.buf = []) l₁) :
    Does (w.rows cfg) (w.afterFlush cfg p reply) (fun r _ => Kept w r) W l := by
  refine afterFlush_does (fun l₁ _ => ?_) fun e w' l' hBuf => ?_
  · refine does_mono (hp l₁) (fun v l' _ => ?_) fun _ h => h
    intro w' hw
    cases hw
    exact Or.inl rfl
  · intro w'' hw
    cases hw
    exact Or.inl hBuf

theorem serve_does {w : Worker} (m : Msg) :
    Does ((w.received m).rows cfg) (w.serve cfg m) (fun r _ => Kept (w.received m) r) W l := by
  cases m with
  | record call r =>
      show Does _ (if _ then _ else _) _ _ _
      split
      · exact does_mono turnOver_does (fun _ _ h w' hw => Or.inl (h w' hw)) fun _ hW => hW
      · refine does_done fun w' hw => ?_
        cases hw
        exact Or.inr rfl
  | flush => exact afterFlush_kept fun _ => trivial
  | rotate =>
      refine does_attempt (fun w' => w'.buf = []) ?_ fun e l' hBuf => ?_
      · apply does_bind
        refine does_mono (rotate_does (Or.inl rfl)) (fun w' l' hBuf => ?_) fun _ h => h
        refine does_done (does_done fun w'' hw => ?_)
        cases hw
        exact Or.inl hBuf
      · refine does_done fun w' hw => ?_
        cases hw
        exact Or.inl hBuf
  | count => exact afterFlush_kept fun _ => does_call trivial (fun _ _ _ => trivial) rfl
  | exportFor f => exact afterFlush_kept fun _ => does_call trivial (fun _ _ _ => trivial) rfl
  | forget keys mark =>
      refine afterFlush_kept fun _ => ?_
      exact does_mono (forget_does (W := fun w' => w'.buf = []) rfl) (fun _ _ _ => trivial) fun _ h => h
  | shutdown =>
      apply does_bind
      refine does_mono (afterFlush_kept (w := w) fun _ => trivial) (fun r _ _ => ?_) fun _ hW => hW
      exact does_done nofun

theorem serve_forget_does {w : Worker} {mark : Nat} :
    Does (w.rows cfg) (w.serve cfg (.forget keys mark))
      (fun r l' => ∀ n, r.2 = .forgotten (.ok n) →
        r.1 = some w.flushed ∧ ∃ l₁, Flushed (w.rows cfg) l l₁ ∧ Forgot keys l₁ l') W l := by
  refine afterFlush_does (fun l₁ hFlushed => ?_) nofun
  exact does_mono (forget_does (W := fun w' => w'.buf = []) rfl)
    (fun _ l' h _ _ => ⟨rfl, l₁, hFlushed, h⟩) fun _ h => h

theorem openLog_does : Does batch openLog (fun r _ => ∀ w, r.1 = some w → w.buf = []) W l := by
  refine does_query trivial (fun _ _ _ => ?_) fun _ _ _ => does_done nofun
  refine does_query trivial (fun _ _ _ => ?_) fun _ _ _ => does_done nofun
  refine does_ask rfl fun _ => does_ask rfl fun _ => does_done fun w hw => ?_
  cases hw
  rfl

end

end Worker

end Gateway.Reqlog
