import Gateway.Program
import Gateway.Service.Rename

/-! `rename_model` statement by statement. Each of its statements may fail, and
what those before it have written is then rolled back. -/
namespace Gateway

open Json

namespace Store

inductive RenameStatement where
  | beginTx
  | modelById (id : Id)
  | nameTaken (newName : Str) (id : Id)
  | aliasOwner (newName : Str)
  | deleteAlias (name : Str)
  | setName (id : Id) (newName : Str)
  | upsertAlias (name : Str) (modelId : Id)
  | commit
  /-- After the transaction. -/
  | getModel (id : Id)

def RenameStatement.Result : RenameStatement → Type
  | modelById _ | getModel _ => Option ModelRow
  | nameTaken _ _ => Bool
  | aliasOwner _ => Option Id
  | _ => Unit

/-- The tables as they are stored, and as the transaction sees them. -/
structure RenameState where
  stored : Catalog
  working : Catalog
  committed : Bool := false

namespace RenameStatement

def execute (s : RenameState) : (q : RenameStatement) → q.Result × RenameState
  | beginTx => ((), { s with working := s.stored })
  | modelById id => (s.working.getModel id, s)
  | nameTaken newName id => (s.working.models.any fun m => m.name == newName && m.id != id, s)
  | aliasOwner newName => ((s.working.aliases.find? (·.name == newName)).map AliasRow.modelId, s)
  | deleteAlias name =>
      ((), { s with working :=
        { s.working with aliases := s.working.aliases.filter (·.name != name) } })
  | setName id newName =>
      ((), { s with working :=
        { s.working with
          models := s.working.models.map fun m =>
            if m.id == id then { m with name := newName } else m } })
  | upsertAlias name modelId =>
      ((), { s with working :=
        { s.working with aliases := Catalog.upsertAlias s.working.aliases name modelId } })
  | commit => ((), { s with stored := s.working, committed := true })
  | getModel id => (s.stored.getModel id, s)

/-- A statement is executed, or it fails and changes nothing. -/
inductive Step : (q : RenameStatement) → RenameState → Except Error q.Result → RenameState → Prop where
  | executed (q : RenameStatement) (s : RenameState) : Step q s (.ok (q.execute s).1) (q.execute s).2
  | failed (q : RenameStatement) (s : RenameState) (message : Str) :
      Step q s (.error (.storage message)) s

end RenameStatement

abbrev RenameProgram := Program RenameStatement (fun q => Except Error q.Result) Error

/-- A statement whose failure ends the program. -/
def issue (q : RenameStatement) : RenameProgram q.Result :=
  .query q fun
    | .ok a => .done a
    | .error e => .fail e

/-- An alias of the model itself is used up, one of another model is in the way. -/
def takeAlias (id : Id) (newName : Str) : Option Id → RenameProgram Unit
  | some owner =>
      if owner ≠ id then
        .fail (.conflict ("\"".toList ++ newName ++
          "\" is already an alias of another model".toList))
      else issue (.deleteAlias newName)
  | none => .done ()

/-- The model as it is after the transaction. -/
def reread : Option ModelRow → RenameProgram ModelRow
  | some model => .done model
  | none => .fail (.notFound "model".toList)

def moveName (id : Id) (newName : Str) (current : ModelRow) : RenameProgram ModelRow := do
  issue (.setName id newName)
  issue (.upsertAlias current.name id)
  issue .commit
  reread (← issue (.getModel id))

def renameFree (id : Id) (newName : Str) (current : ModelRow) :
    (taken : Bool) → RenameProgram ModelRow
  | true => .fail (.conflict ("model \"".toList ++ newName ++ "\" already exists".toList))
  | false => do
      takeAlias id newName (← issue (.aliasOwner newName))
      moveName id newName current

def renameFound (id : Id) (newName : Str) : Option ModelRow → RenameProgram ModelRow
  | none => .fail (.notFound "model".toList)
  | some current => do
      if current.name = newName then .done current
      else renameFree id newName current (← issue (.nameTaken newName id))

def renameModel (id : Id) (newName : Str) : RenameProgram ModelRow := do
  issue .beginTx
  renameFound id newName (← issue (.modelById id))

/-- A call on the stored tables, with its result and what it leaves. -/
def Renaming (c : Catalog) (id : Id) (newName : Str) (r : Except Error ModelRow)
    (s : RenameState) : Prop :=
  Program.Runs RenameStatement.Step (renameModel id newName) ⟨c, c, false⟩ r s

/-- However its statements are answered, a program ends as asked for. -/
abbrev Ends {β : Type} (p : RenameProgram β) (post : Except Error β → RenameState → Prop)
    (s : RenameState) : Prop :=
  p.wp (fun _ _ => True) RenameStatement.Step post s

theorem ends_issue {β : Type} {q : RenameStatement} {f : q.Result → RenameProgram β}
    {post : Except Error β → RenameState → Prop} {s : RenameState} :
    Ends (issue q >>= f) post s ↔
      Ends (f (q.execute s).1) post (q.execute s).2 ∧
        ∀ message, post (.error (.storage message)) s := by
  constructor
  · rintro ⟨-, hAll⟩
    exact ⟨hAll _ _ (.executed q s), fun message => hAll _ _ (.failed q s message)⟩
  · rintro ⟨hExecuted, hFailed⟩
    refine ⟨trivial, ?_⟩
    rintro _ _ (_ | message)
    · exact hExecuted
    · exact hFailed _

/-- What a call may come to: the rename as a whole, or nothing. -/
def RenameOutcome (c : Catalog) (id : Id) (newName : Str) : Except Error ModelRow → RenameState → Prop
  | .ok model, s =>
      c.renameModel id newName = .ok s.stored ∧ s.stored.getModel id = some model ∧
        model.name = newName
  | .error _, s =>
      (s.committed = false ∧ s.stored = c) ∨
        (s.committed = true ∧ c.renameModel id newName = .ok s.stored)

section

variable {c : Catalog} {id : Id} {newName : Str} {current : ModelRow}

theorem failed_outcome (e : Error) (working : Catalog) :
    RenameOutcome c id newName (.error e) ⟨c, working, false⟩ :=
  Or.inl ⟨rfl, rfl⟩

/-- The last statements, on tables without the new name among the aliases. -/
theorem moveName_ends (hModel : c.getModel id = some current)
    (hRename : c.renameModel id newName = .ok (c.renamed current newName)) :
    Ends (moveName id newName current) (RenameOutcome c id newName)
      ⟨c, { c with aliases := c.aliases.filter (·.name != newName) }, false⟩ := by
  obtain ⟨-, rfl⟩ := Catalog.mem_of_getModel hModel
  have hFound : (c.renamed current newName).getModel current.id =
      some { current with name := newName } := by
    rw [Catalog.getModel_renamed, hModel]
    simp [Catalog.relabel]
  refine ends_issue.mpr ⟨?_, fun _ => failed_outcome _ _⟩
  refine ends_issue.mpr ⟨?_, fun _ => failed_outcome _ _⟩
  refine ends_issue.mpr ⟨?_, fun _ => failed_outcome _ _⟩
  refine ends_issue.mpr ⟨?_, fun _ => Or.inr ⟨rfl, hRename⟩⟩
  show Ends (reread ((c.renamed current newName).getModel current.id)) _ _
  rw [hFound]
  exact ⟨hRename, hFound, rfl⟩

/-- What is left once the new name is no other model's. -/
theorem takeAlias_ends (h : c.Valid) (hModel : c.getModel id = some current)
    (hNew : current.name ≠ newName)
    (hFree : (c.models.any fun m => m.name == newName && m.id != id) = false) :
    Ends (takeAlias id newName ((c.aliases.find? (·.name == newName)).map AliasRow.modelId) >>=
      fun _ => moveName id newName current) (RenameOutcome c id newName) ⟨c, c, false⟩ := by
  have hRename : (c.aliases.any fun a => a.name == newName && a.modelId != id) = false →
      c.renameModel id newName = .ok (c.renamed current newName) := by
    intro hOwn
    simp [Catalog.renameModel, hModel, hNew, hFree, hOwn]
  cases hFind : c.aliases.find? (·.name == newName) with
  | none =>
      have hNot : ∀ a ∈ c.aliases, a.name ≠ newName := by
        intro a ha
        simpa using List.find?_eq_none.mp hFind a ha
      have hNone : c.aliases.filter (·.name != newName) = c.aliases := by
        rw [List.filter_eq_self]
        intro a ha
        simpa using hNot a ha
      have hMove := moveName_ends hModel (hRename (by
        rw [List.any_eq_false]
        intro a ha
        simp [hNot a ha]))
      rwa [hNone] at hMove
  | some a =>
      have hMem := List.mem_of_find?_eq_some hFind
      have hName : a.name = newName := by simpa using List.find?_some hFind
      by_cases hOwner : a.modelId = id
      · have hTake : takeAlias id newName (some a.modelId) = issue (.deleteAlias newName) :=
          if_neg (not_not.mpr hOwner)
        rw [Option.map_some, hTake]
        refine ends_issue.mpr ⟨moveName_ends hModel (hRename ?_), fun _ => failed_outcome _ _⟩
        rw [List.any_eq_false]
        intro b hb hBoth
        obtain ⟨hSame, hOther⟩ := Bool.and_eq_true_iff.mp hBoth
        have hOne : b = a := List.inj_on_of_nodup_map h.aliasNames hb hMem
          ((beq_iff_eq.mp hSame).trans hName.symm)
        rw [hOne, hOwner] at hOther
        simp at hOther
      · have hTake : takeAlias id newName (some a.modelId) = .fail (.conflict ("\"".toList ++
            newName ++ "\" is already an alias of another model".toList)) :=
          if_pos hOwner
        rw [Option.map_some, hTake]
        exact failed_outcome _ _

theorem renameModel_ends (h : c.Valid) (id : Id) (newName : Str) :
    Ends (renameModel id newName) (RenameOutcome c id newName) ⟨c, c, false⟩ := by
  refine ends_issue.mpr ⟨?_, fun _ => failed_outcome _ _⟩
  refine ends_issue.mpr ⟨?_, fun _ => failed_outcome _ _⟩
  show Ends (renameFound id newName (c.getModel id)) _ _
  cases hModel : c.getModel id with
  | none => exact failed_outcome _ _
  | some current =>
      rw [renameFound]
      by_cases hSame : current.name = newName
      · rw [if_pos hSame]
        have hRename : c.renameModel id newName = .ok c := by
          simp [Catalog.renameModel, hModel, hSame]
        exact ⟨hRename, hModel, hSame⟩
      · rw [if_neg hSame]
        refine ends_issue.mpr ⟨?_, fun _ => failed_outcome _ _⟩
        show Ends (renameFree id newName current
          (c.models.any fun m => m.name == newName && m.id != id)) _ _
        cases hTaken : c.models.any fun m => m.name == newName && m.id != id with
        | true => exact failed_outcome _ _
        | false =>
            exact ends_issue.mpr ⟨takeAlias_ends h hModel hSame hTaken, fun _ => failed_outcome _ _⟩

end

def RenameStatement.undisturbed (q : RenameStatement) (s : RenameState) :
    Except Error q.Result × RenameState :=
  (.ok (q.execute s).1, (q.execute s).2)

/-- The call that no statement fails in. -/
theorem renaming_undisturbed (c : Catalog) (id : Id) (newName : Str) :
    Renaming c id newName
      ((renameModel id newName).run RenameStatement.undisturbed ⟨c, c, false⟩).1
      ((renameModel id newName).run RenameStatement.undisturbed ⟨c, c, false⟩).2 :=
  Program.run_runs RenameStatement.Step.executed _ _

/-- One call after another, whatever becomes of each. -/
def Renamed (c c' : Catalog) : Prop :=
  ∃ id newName r s, Renaming c id newName r s ∧ s.stored = c'

theorem Catalog.Valid.getModelByName {c : Catalog} (h : c.Valid) {m : ModelRow}
    (hm : m ∈ c.models) : c.getModelByName m.name = some m := by
  obtain ⟨m', hFound⟩ : ∃ m', c.getModelByName m.name = some m' :=
    Option.isSome_iff_exists.mp (List.find?_isSome.mpr ⟨m, hm, by simp⟩)
  have hName : m'.name = m.name := by simpa using List.find?_some hFound
  rw [hFound, h.eq_of_name (List.mem_of_find?_eq_some hFound) hm hName]

end Store

namespace Service

open Store

variable (fallbacks : Str → Option (List Str)) (strategy : Strategy)

/-- The model that the router takes a name for. -/
def resolves (c : Catalog) (name : Str) : Option Id :=
  (c.getModelByName ((Snapshot.load c fallbacks strategy).canonical name)).map ModelRow.id

variable {c c' : Catalog} {id : Id} {newName : Str}

/-- A model's name leads to it. -/
theorem resolves_name (h : c.Valid) {m : ModelRow} (hm : m ∈ c.models) :
    resolves fallbacks strategy c m.name = some m.id := by
  have hSelf : (Snapshot.load c fallbacks strategy).canonical m.name = m.name := by
    classical
    rw [canonical_load fallbacks strategy h, h.aliasTarget_eq_none hm]
    exact ite_self _
  rw [resolves, hSelf, h.getModelByName hm]
  rfl

theorem resolves_renamed (h : c.Valid) {current : ModelRow}
    (hRename : c.Renames current newName) {name : Str} {model : Id}
    (hName : resolves fallbacks strategy c name = some model) :
    resolves fallbacks strategy (c.renamed current newName) name = some model := by
  obtain ⟨m, hFound, rfl⟩ := Option.map_eq_some_iff.mp hName
  have hm := List.mem_of_find?_eq_some hFound
  have hCanonical : m.name = (Snapshot.load c fallbacks strategy).canonical name := by
    simpa using List.find?_some hFound
  have hMoved : Catalog.relabel current newName m ∈ (c.renamed current newName).models :=
    List.mem_map_of_mem hm
  rw [resolves, canonical_renamed fallbacks strategy h hRename, ← hCanonical,
    ← h.relabel_name hRename.mem hm, (h.renamed hRename).getModelByName hMoved]
  exact congrArg some (Catalog.relabel_id m)

/-- What the rename as a whole keeps. -/
theorem renameModel_keeps (h : c.Valid) (hRename : c.renameModel id newName = .ok c') :
    c'.Valid ∧ ∀ name model, resolves fallbacks strategy c name = some model →
      resolves fallbacks strategy c' name = some model := by
  cases hModel : c.getModel id with
  | none =>
      rw [Catalog.renameModel, hModel] at hRename
      cases hRename
  | some current =>
      rcases Catalog.renameModel_cases h hModel hRename with ⟨-, rfl⟩ | ⟨hRenames, rfl⟩
      · exact ⟨h, fun _ _ hName => hName⟩
      · exact ⟨h.renamed hRenames, fun _ _ => resolves_renamed fallbacks strategy h hRenames⟩

/-- However a call ends, the tables stay valid and names lead where they led. -/
theorem renamed_keeps (h : c.Valid) (hCall : Renamed c c') :
    c'.Valid ∧ ∀ name model, resolves fallbacks strategy c name = some model →
      resolves fallbacks strategy c' name = some model := by
  obtain ⟨id, newName, r, s, hRuns, rfl⟩ := hCall
  have hOutcome : RenameOutcome c id newName r s := hRuns.of_wp (renameModel_ends h id newName)
  cases r with
  | ok model => exact renameModel_keeps fallbacks strategy h hOutcome.1
  | error e =>
      rcases hOutcome with ⟨-, hSame⟩ | ⟨-, hRename⟩
      · rw [hSame]
        exact ⟨h, fun _ _ hName => hName⟩
      · exact renameModel_keeps fallbacks strategy h hRename

theorem renamings_keep (h : c.Valid) (hCalls : Relation.ReflTransGen Renamed c c') :
    c'.Valid ∧ ∀ name model, resolves fallbacks strategy c name = some model →
      resolves fallbacks strategy c' name = some model := by
  induction hCalls with
  | refl => exact ⟨h, fun _ _ hName => hName⟩
  | tail _ hCall ih =>
      obtain ⟨hValid, hNames⟩ := renamed_keeps fallbacks strategy ih.1 hCall
      exact ⟨hValid, fun name model hName => hNames name model (ih.2 name model hName)⟩

/-- After any calls on valid tables, a call that succeeds leaves every name
leading where it led, and the new name to the model. One that fails before the
commit leaves the tables as they were. -/
theorem rename_keeps_names {first : Catalog} (h : first.Valid)
    (hCalls : Relation.ReflTransGen Renamed first c) {r : Except Error ModelRow} {s : RenameState}
    (hCall : Renaming c id newName r s) :
    match r with
    | .ok model =>
        model = ⟨id, newName⟩ ∧ s.stored.getModel id = some model ∧
          (∀ name other, resolves fallbacks strategy first name = some other ∨
            resolves fallbacks strategy c name = some other →
              resolves fallbacks strategy s.stored name = some other) ∧
          resolves fallbacks strategy s.stored newName = some id ∧ s.stored.Valid ∧
          ∀ a ∈ s.stored.aliases, ∀ m ∈ s.stored.models, a.modelId = m.id → a.name ≠ m.name
    | .error _ => s.committed = false → s.stored = c := by
  obtain ⟨hValid, hFirst⟩ := renamings_keep fallbacks strategy h hCalls
  have hOutcome : RenameOutcome c id newName r s := hCall.of_wp (renameModel_ends hValid id newName)
  cases r with
  | ok model =>
      obtain ⟨hRename, hFound, hName⟩ := hOutcome
      obtain ⟨hAfter, hNames⟩ := renameModel_keeps fallbacks strategy hValid hRename
      obtain ⟨hMem, hId⟩ := Catalog.mem_of_getModel hFound
      obtain ⟨modelId, modelName⟩ := model
      dsimp only at hName hId
      subst hName hId
      refine ⟨rfl, hFound, ?_, resolves_name fallbacks strategy hAfter hMem, hAfter, ?_⟩
      · rintro name other (hOld | hNow)
        · exact hNames name other (hFirst name other hOld)
        · exact hNames name other hNow
      · intro a ha m hm _ hSame
        exact hAfter.namesApart a ha (hSame ▸ List.mem_map_of_mem hm)
  | error e =>
      rintro hOpen
      rcases hOutcome with ⟨-, hSame⟩ | ⟨hCommitted, -⟩
      · exact hSame
      · rw [hOpen] at hCommitted
        cases hCommitted

/-- One model, whose name is `a`. -/
def named : Catalog := { models := [⟨['m'], ['a']⟩] }

def renamedOnce : Catalog :=
  { models := [⟨['m'], ['b']⟩], aliases := [⟨['a'], ['m']⟩] }

def renamedBack : Catalog :=
  { models := [⟨['m'], ['a']⟩], aliases := [⟨['b'], ['m']⟩] }

theorem named_valid : named.Valid :=
  ⟨by decide, by decide, by decide, by decide, by decide⟩

/-- To `b` and back. -/
theorem back_again :
    (⟨['m'], ['a']⟩ : ModelRow) = ⟨['m'], ['a']⟩ ∧
      renamedBack.getModel ['m'] = some ⟨['m'], ['a']⟩ ∧
      (∀ name other, resolves (fun _ => none) .simple named name = some other ∨
        resolves (fun _ => none) .simple renamedOnce name = some other →
          resolves (fun _ => none) .simple renamedBack name = some other) ∧
      resolves (fun _ => none) .simple renamedBack ['a'] = some ['m'] ∧ renamedBack.Valid ∧
      ∀ a ∈ renamedBack.aliases, ∀ m ∈ renamedBack.models, a.modelId = m.id → a.name ≠ m.name :=
  rename_keeps_names (fun _ => none) .simple named_valid
    (.single ⟨['m'], ['b'], .ok ⟨['m'], ['b']⟩, ⟨renamedOnce, renamedOnce, true⟩,
      renaming_undisturbed named ['m'] ['b'], rfl⟩)
    (c := renamedOnce) (r := .ok ⟨['m'], ['a']⟩) (s := ⟨renamedBack, renamedBack, true⟩)
    (renaming_undisturbed renamedOnce ['m'] ['a'])

end Service

end Gateway
