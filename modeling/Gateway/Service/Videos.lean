import Gateway.Service.Endpoints
import Gateway.Service.Headers
import Gateway.Wire.Media.Video

/-! Questions about a video that was asked for earlier: they go to the deployments
that may have made it, one after the other, until one of them knows it. -/
namespace Gateway.Service

open Json Wire Wire.Media Program

/-- A deployment with what is stored about calling it. -/
structure MediaDeployment extends Deployment where
  apiBase : Option Str := none
  apiKey : Option Str := none
  extra : Extra := {}

def trimBase (base : Str) : Str := (stripSuffix "/".toList base).getD base

/-- The URL of a media endpoint below a base that may have its version. -/
def buildMediaUrl (fmt : MediaFormat) (apiBase : Option Str) : Str :=
  let base := trimBase (apiBase.getD "https://api.openai.com".toList)
  if base = "v1".toList ∨ "/v1".toList.isSuffixOf base then base ++ '/' :: fmt.path
  else base ++ "/v1/".toList ++ fmt.path

inductive HttpMethod where
  | get
  | delete
  deriving DecidableEq

structure LookupRequest where
  url : Str
  method : HttpMethod
  headers : List Header

inductive VideoQuery where
  | send (d : MediaDeployment) (request : LookupRequest)

def VideoQuery.Answer : VideoQuery → Type
  | .send _ _ => Except Error HeadedResponse

abbrev Lookup := Program VideoQuery VideoQuery.Answer Error

/-- Whether `filter_access` keeps a candidate. -/
def admits (ctx : RequestCtx) (d : Deployment) : Bool :=
  if !ctx.access.permitsModel d.modelId || !ctx.access.permitsProvider d.providerId then false
  else !ctx.excludedModelIds.contains d.modelId && !ctx.excludedProviderIds.contains d.providerId

theorem filterAccess_eq (candidates : List Deployment) (ctx : RequestCtx) :
    filterAccess candidates ctx = candidates.filter (admits ctx) := rfl

/-- The deployments of the table that make a format by an upstream model. -/
def servingVideos (table : List MediaDeployment) (upstreamModel : Str) : List MediaDeployment :=
  table.filter fun d =>
    decide (d.upstreamFormat = .media .openaiVideos) && decide (d.upstreamModel = upstreamModel)

def noSuchVideo : Error := .notFound "no such video".toList

section

variable (environment : Str → Option Str) (cfAccess : Option CloudflareAccess) (id : Str)
  (lookup : VideoLookup)

def lookupRequest (d : MediaDeployment) : LookupRequest where
  url := lookupUrl (buildMediaUrl .openaiVideos d.apiBase) id lookup
  method := if lookup = .delete then .delete else .get
  headers := videoHeaders environment cfAccess d.apiKey d.extra

/-- What is made of an answer: it has to come in one piece. -/
def lookupReply (d : MediaDeployment) : Except Error HeadedResponse → Except Error BufferedReply
  | .error e => .error e
  | .ok resp =>
      match resp.body with
      | .full bytes =>
          .ok ⟨resp.status, resp.contentType.getD "application/octet-stream".toList, bytes⟩
      | .stream => .error (.upstream d.provider 502 "the engine streamed a video lookup".toList)

def askAboutVideo (d : MediaDeployment) : Lookup (Except Error BufferedReply) :=
  query (.send d (lookupRequest environment cfAccess id lookup d)) fun
    (a : Except Error HeadedResponse) => done (lookupReply d a)

/-- A deployment that cannot be reached is passed over, and so is one that does not
know the video. -/
def askInTurn (answer : Option BufferedReply) (unreachable : Option Error) :
    List MediaDeployment → Lookup BufferedReply
  | [] =>
      match unreachable, answer with
      | some e, _ => .fail e
      | none, some response => done response
      | none, none => .fail noSuchVideo
  | d :: rest => do
      match ← askAboutVideo environment cfAccess id lookup d with
      | .error e => askInTurn answer (some e) rest
      | .ok response =>
          if response.status ≠ 404 then done response
          else askInTurn (some response) unreachable rest

def handleVideo (table : List MediaDeployment) (ctx : RequestCtx) : Lookup BufferedReply :=
  match videoModel id with
  | .error _ => .fail noSuchVideo
  | .ok model =>
      askInTurn environment cfAccess id lookup none none
        ((servingVideos table model).filter fun d => admits ctx d.toDeployment)

end

/-! ### What is asked and answered -/

/-- A question and the answer to it. -/
structure Asked where
  deployment : MediaDeployment
  request : LookupRequest
  answer : Except Error HeadedResponse

def Asked.reply (x : Asked) : Except Error BufferedReply := lookupReply x.deployment x.answer

/-- Any answer may come. -/
def LookupAnswers : (q : VideoQuery) → List Asked → q.Answer → List Asked → Prop
  | .send d request, log, a, log' => log' = log ++ [⟨d, request, a⟩]

/-- None of the deployments that were asked knew the video: the last answer, and the
error of the last one that could not be reached. -/
inductive Passed : List Asked → Option BufferedReply → Option Error → Prop where
  | start : Passed [] none none
  | unreached {log : List Asked} {answer : Option BufferedReply} {unreachable : Option Error} {x : Asked}
      {e : Error} (before : Passed log answer unreachable) (fails : x.reply = .error e) :
      Passed (log ++ [x]) answer (some e)
  | unknown {log : List Asked} {answer : Option BufferedReply} {unreachable : Option Error} {x : Asked}
      {response : BufferedReply} (before : Passed log answer unreachable)
      (answers : x.reply = .ok response) (missing : response.status = 404) :
      Passed (log ++ [x]) (some response) unreachable

/-- How a question ends that may be put to these deployments. -/
inductive LookupOutcome (ds : List MediaDeployment) : List Asked → Except Error BufferedReply → Prop where
  | known {log : List Asked} {answer : Option BufferedReply} {unreachable : Option Error} {x : Asked}
      {response : BufferedReply} (passed : Passed log answer unreachable)
      (asked : (log ++ [x]).map Asked.deployment <+: ds) (answers : x.reply = .ok response)
      (knows : response.status ≠ 404) : LookupOutcome ds (log ++ [x]) (.ok response)
  | unreachable {log : List Asked} {answer : Option BufferedReply} {e : Error}
      (passed : Passed log answer (some e)) (asked : log.map Asked.deployment = ds) :
      LookupOutcome ds log (.error e)
  | unknown {log : List Asked} {response : BufferedReply} (passed : Passed log (some response) none)
      (asked : log.map Asked.deployment = ds) : LookupOutcome ds log (.ok response)
  | nobody (none : ds = []) : LookupOutcome ds [] (.error noSuchVideo)

/-- The deployments that may know a video: those that serve the model its id names,
among those the caller may use. -/
def mayKnow (table : List MediaDeployment) (ctx : RequestCtx) (id : Str) : List MediaDeployment :=
  match videoModel id with
  | .error _ => []
  | .ok model => (servingVideos table model).filter fun d => admits ctx d.toDeployment

theorem Passed.nobody {log : List Asked} (h : Passed log none none) : log = [] := by
  generalize hAnswer : (none : Option BufferedReply) = answer at h
  generalize hError : (none : Option Error) = unreachable at h
  cases h with
  | start => rfl
  | unreached => cases hError
  | unknown => cases hAnswer

section

variable {environment : Str → Option Str} {cfAccess : Option CloudflareAccess} {id : Str}
  {lookup : VideoLookup}

theorem askInTurn_cons (answer : Option BufferedReply) (unreachable : Option Error) (d : MediaDeployment)
    (rest : List MediaDeployment) :
    askInTurn environment cfAccess id lookup answer unreachable (d :: rest) =
      query (.send d (lookupRequest environment cfAccess id lookup d)) fun
        (a : Except Error HeadedResponse) =>
          match lookupReply d a with
          | .error e => askInTurn environment cfAccess id lookup answer (some e) rest
          | .ok response =>
              if response.status ≠ 404 then done response
              else askInTurn environment cfAccess id lookup (some response) unreachable rest := by
  rw [askInTurn]
  rfl

/-- The deployments that are left are asked until one of them knows. -/
theorem askInTurn_outcome {rest : List MediaDeployment} {answer : Option BufferedReply}
    {unreachable : Option Error} {ds : List MediaDeployment} {log log' : List Asked}
    {res : Except Error BufferedReply} (hPassed : Passed log answer unreachable)
    (hAsked : log.map Asked.deployment ++ rest = ds)
    (hRequests : ∀ x ∈ log, x.request = lookupRequest environment cfAccess id lookup x.deployment)
    (run : Runs LookupAnswers (askInTurn environment cfAccess id lookup answer unreachable rest) log res
      log') :
    LookupOutcome ds log' res ∧
      ∀ x ∈ log', x.request = lookupRequest environment cfAccess id lookup x.deployment := by
  induction rest generalizing answer unreachable log with
  | nil =>
      rw [List.append_nil] at hAsked
      cases unreachable with
      | some e =>
          cases run
          exact ⟨.unreachable hPassed hAsked, hRequests⟩
      | none =>
          cases answer with
          | some response =>
              cases run
              exact ⟨.unknown hPassed hAsked, hRequests⟩
          | none =>
              cases run
              cases hPassed.nobody
              exact ⟨.nobody hAsked.symm, hRequests⟩
  | cons d rest ih =>
      rw [askInTurn_cons] at run
      cases run with
      | @query _ _ _ log₁ _ a _ answered run =>
          cases answered
          let x : Asked := ⟨d, lookupRequest environment cfAccess id lookup d, a⟩
          have hNow : (log ++ [x]).map Asked.deployment ++ rest = ds := by
            rw [List.map_append, List.append_assoc]
            exact hAsked
          have hAll : ∀ y ∈ log ++ [x],
              y.request = lookupRequest environment cfAccess id lookup y.deployment := by
            intro y hy
            rcases List.mem_append.mp hy with hy | hy
            · exact hRequests y hy
            · rw [List.mem_singleton.mp hy]
          cases hReply : lookupReply d a with
          | error e =>
              have hFails : x.reply = .error e := hReply
              simp only [hReply] at run
              exact ih (.unreached hPassed hFails) hNow hAll run
          | ok response =>
              have hAnswers : x.reply = .ok response := hReply
              simp only [hReply] at run
              split_ifs at run with hKnows
              · cases run
                exact ⟨.known hPassed ⟨rest, hNow⟩ hAnswers hKnows, hAll⟩
              · exact ih (.unknown hPassed hAnswers (not_not.mp hKnows)) hNow hAll run

variable {table : List MediaDeployment} {ctx : RequestCtx}

theorem LookupOutcome.asked {ds : List MediaDeployment} {log : List Asked}
    {res : Except Error BufferedReply} (h : LookupOutcome ds log res) :
    log.map Asked.deployment <+: ds := by
  cases h with
  | known _ asked => exact asked
  | unreachable _ asked => rw [asked]
  | unknown _ asked => rw [asked]
  | nobody => exact List.nil_prefix

/-- A deployment that may know a video serves its model, and the caller may use it. -/
theorem mem_mayKnow {d : MediaDeployment} (h : d ∈ mayKnow table ctx id) :
    d ∈ table ∧ d.upstreamFormat = .media .openaiVideos ∧
      videoModel id = .ok d.upstreamModel ∧ admits ctx d.toDeployment = true := by
  unfold mayKnow at h
  cases hModel : videoModel id with
  | error e =>
      rw [hModel] at h
      cases h
  | ok model =>
      rw [hModel] at h
      obtain ⟨hServes, hAdmits⟩ := List.mem_filter.mp h
      obtain ⟨hTable, hKind⟩ := List.mem_filter.mp hServes
      obtain ⟨hFormat, hSame⟩ := Bool.and_eq_true_iff.mp hKind
      exact ⟨hTable, of_decide_eq_true hFormat, by rw [of_decide_eq_true hSame], hAdmits⟩

theorem handleVideo_outcome {log : List Asked} {res : Except Error BufferedReply}
    (run : Runs LookupAnswers (handleVideo environment cfAccess id lookup table ctx) [] res log) :
    LookupOutcome (mayKnow table ctx id) log res ∧
      ∀ x ∈ log, x.request = lookupRequest environment cfAccess id lookup x.deployment := by
  unfold handleVideo at run
  unfold mayKnow
  cases hModel : videoModel id with
  | error e =>
      rw [hModel] at run
      cases run
      exact ⟨.nobody rfl, by simp⟩
  | ok model =>
      rw [hModel] at run
      exact askInTurn_outcome .start rfl (by simp) run

/-- Whatever the answers, a question about a video is put to the deployments that
may know it, in order and once each, until one knows it. What it comes to is that
answer, or else the error of one that could not be reached, or else a last answer
that there is no such video. Nobody else is asked, and the id is one segment of what
is asked. -/
theorem handleVideo_asks {log : List Asked} {res : Except Error BufferedReply}
    (run : Runs LookupAnswers (handleVideo environment cfAccess id lookup table ctx) [] res log) :
    LookupOutcome (mayKnow table ctx id) log res ∧ ∀ x ∈ log,
      x.request = lookupRequest environment cfAccess id lookup x.deployment ∧
      segments x.request.url = segments (buildMediaUrl .openaiVideos x.deployment.apiBase) ++
        id :: (if lookup = .content then ["content".toList] else []) ∧
      x.deployment ∈ table ∧ x.deployment.upstreamFormat = .media .openaiVideos ∧
      videoModel id = .ok x.deployment.upstreamModel ∧
      ctx.access.permitsPair x.deployment.modelId x.deployment.providerId = true := by
  obtain ⟨hOutcome, hRequests⟩ := handleVideo_outcome run
  refine ⟨hOutcome, fun x hx => ?_⟩
  have hAsked := hOutcome.asked.subset (List.mem_map_of_mem hx)
  obtain ⟨hTable, hFormat, hModel, hAdmits⟩ := mem_mayKnow hAsked
  have hUrl := ((video_ids id).2 _ hModel).2 (buildMediaUrl .openaiVideos x.deployment.apiBase) lookup
  have hPermits : x.deployment.toDeployment ∈ filterAccess [x.deployment.toDeployment] ctx :=
    List.mem_filter.mpr ⟨List.mem_singleton_self _, hAdmits⟩
  refine ⟨hRequests x hx, ?_, hTable, hFormat, hModel, permitsPair_of_mem_filterAccess hPermits⟩
  rw [hRequests x hx]
  exact hUrl

end

def sampleVideo : Str := videoId "m".toList "j".toList "s".toList

def sampleDeployment (modelId : String) : MediaDeployment where
  modelId := modelId.toList
  providerId := "p".toList
  upstreamModel := "m".toList
  upstreamFormat := .media .openaiVideos

def sampleVideoCtx : RequestCtx := ⟨none, none, none, [], {}, [], [], false⟩

/-- The first deployment does not answer, and the second knows the video. -/
def sampleAnswer : (q : VideoQuery) → List Asked → q.Answer × List Asked
  | .send d request, log =>
      let a : Except Error HeadedResponse :=
        if d.modelId = "a".toList then .error (.connectionLost [])
        else .ok { status := 200, body := .full [] }
      (a, log ++ [⟨d, request, a⟩])

theorem sampleVideo_asks : ∃ (log : List Asked) (res : Except Error BufferedReply), log.length = 2 ∧
    LookupOutcome (mayKnow [sampleDeployment "a", sampleDeployment "b"] sampleVideoCtx sampleVideo) log
      res := by
  have hModel : videoModel sampleVideo = .ok "m".toList :=
    videoModel_eq_ok.mpr ⟨"j".toList, "s".toList, ⟨by decide, by decide, by decide⟩, rfl⟩
  have hTurns : handleVideo (fun _ => none) none sampleVideo .status
      [sampleDeployment "a", sampleDeployment "b"] sampleVideoCtx =
        askInTurn (fun _ => none) none sampleVideo .status none none
          [sampleDeployment "a", sampleDeployment "b"] := by
    rw [handleVideo, hModel]
    rfl
  have run := @run_runs _ _ _ _ _ LookupAnswers sampleAnswer (fun (.send _ _) _ => rfl)
    (askInTurn (fun _ => none) none sampleVideo .status none none
      [sampleDeployment "a", sampleDeployment "b"]) []
  rw [← hTurns] at run
  refine ⟨_, _, ?_, (handleVideo_asks run).1⟩
  rw [hTurns]
  rfl

end Gateway.Service
