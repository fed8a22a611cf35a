import Gateway.Json.Reread
import Gateway.Wire.OpenaiChat.Parse

/-! Gateways behind one another. Each reads the Chat Completions request of the one
before it, and sends the body on with its own model. The conversation that the last
upstream is told is the first client's. -/
namespace Gateway.Wire.OpenaiChat

open Json Text

/-- The request, once it has passed through gateways with these options. -/
def relay (req : ChatRequest) : List EmitOptions → Except WireError ChatRequest
  | [] => .ok req
  | o :: hops => do relay (← parseRequest (toUtf8 (emitRequest req o).1)) hops

/-- A schema may come with its numbers spelled another way. -/
def respelled (t : Tool) : Tool := { t with inputSchema := t.inputSchema.reread }

def valueOf (n : Option Number) : Option ℚ := n.bind fun n => (Value.number n).asF64

/-- The model that a gateway asks for. -/
def targetOf (model : Str) (o : EmitOptions) : Str :=
  if o.targetModel.isEmpty then model else o.targetModel

/-- What the last upstream is told of a request. -/
structure Arrives (r : ChatRequest) (hops : List EmitOptions) (last : ChatRequest) : Prop where
  messages : last.messages = r.messages
  system : last.system = r.system
  tools : last.tools = r.tools.map respelled
  toolChoice : last.toolChoice = r.toolChoice
  maxTokens : last.maxTokens = r.maxTokens
  temperature : valueOf last.temperature = valueOf r.temperature
  topP : valueOf last.topP = valueOf r.topP
  stop : last.stop = r.stop
  cacheKey : last.promptCacheKey = r.promptCacheKey
  retention : last.promptCacheRetention = r.promptCacheRetention
  model : last.model = hops.foldl targetOf r.model
  stream : ∀ o ∈ hops.getLast?, last.stream = o.stream ∧ last.includeUsage = o.stream
  effort : last.reasoning = hops.foldl
    (fun reasoning o => (o.forceReasoningEffort.map fun effort => { effort := some effort }).or
      reasoning) r.reasoning

/-! ### Numbers in another spelling -/

section
variable {depth : Nat}

theorem bind_reread {β : Type} {read : Value → Option β} {v : Value} (kept : v.Kept depth)
    (key : String) (h : ∀ w, read w.reread = read w) :
    (v.reread.get key).bind read = (v.get key).bind read := by
  rw [kept.get_reread]
  cases v.get key with
  | none => rfl
  | some w => exact h w

theorem asStr_reread (w : Value) : w.reread.asStr = w.asStr := by cases w <;> rfl

theorem asBool_reread (w : Value) : w.reread.asBool = w.asBool := by cases w <;> rfl

theorem asU64_reread (w : Value) : w.reread.asU64 = w.asU64 := by
  cases w with
  | number n =>
      cases n with
      | float negative mantissa exponent =>
          simp only [Value.reread, Number.reread]
          split_ifs <;> rfl
      | _ => rfl
  | _ => rfl

theorem optStr_reread {v : Value} (kept : v.Kept depth) (key : String) :
    optStr v.reread key = optStr v key :=
  bind_reread kept key asStr_reread

theorem optBool_reread {v : Value} (kept : v.Kept depth) (key : String) :
    optBool v.reread key = optBool v key :=
  congrArg (Option.getD · false) (bind_reread kept key asBool_reread)

theorem optU32_reread {v : Value} (kept : v.Kept depth) (key : String) :
    optU32 v.reread key = optU32 v key :=
  congrArg (Option.map (· % 2 ^ 32)) (bind_reread kept key asU64_reread)

theorem optArr_reread {v : Value} (kept : v.Kept depth) (key : String) :
    optArr v.reread key = (optArr v key).map (List.map Value.reread) := by
  rw [optArr, optArr, kept.get_reread]
  cases v.get key with
  | none => rfl
  | some w =>
      cases w with
      | array items => exact congrArg some (rereadItems_eq_map items)
      | _ => rfl

theorem items_reread {v : Value} (kept : v.Kept depth) (key : String) :
    (optArr v.reread key).getD [] = ((optArr v key).getD []).map Value.reread := by
  rw [optArr_reread kept]
  cases optArr v key <;> rfl

/-- The items of a list are kept. -/
theorem kept_items {v : Value} (kept : v.Kept depth) (key : String) :
    ∃ depth, ∀ item ∈ (optArr v key).getD [], item.Kept depth := by
  unfold optArr
  cases hGet : v.get key with
  | none => exact ⟨0, fun _ h => nomatch h⟩
  | some w =>
      have hKept := kept.get hGet
      cases w with
      | array items => exact ⟨_, itemsKept_iff.mp hKept.2⟩
      | _ => exact ⟨0, fun _ h => nomatch h⟩

theorem asF64_toFloat (n : Number) :
    (Value.number (Number.toFloat n)).asF64 = (Value.number n).asF64 := by
  cases n <;> simp [Number.toFloat, Value.asF64]

/-- A number keeps its value, as a whole number or a fraction. -/
theorem valueOf_reread {v : Value} (kept : v.Kept depth) (key : String) :
    valueOf (optF32 v.reread key) = valueOf (optF32 v key) := by
  rw [optF32, optF32, kept.get_reread]
  cases v.get key with
  | none => rfl
  | some w =>
      cases w with
      | number n =>
          exact (asF64_toFloat _).trans ((asF64_reread n).trans (asF64_toFloat n).symm)
      | _ => rfl

theorem parseUserPart_reread {p : Value} (kept : p.Kept depth) :
    parseUserPart p.reread = parseUserPart p := by
  have hUrl : (p.reread.get "image_url").bind (optStr · "url") =
      (p.get "image_url").bind (optStr · "url") := by
    rw [kept.get_reread]
    cases hGet : p.get "image_url" with
    | none => rfl
    | some image => exact optStr_reread (kept.get hGet) "url"
  rw [parseUserPart, parseUserPart, optStr_reread kept, optStr_reread kept, hUrl]

theorem parseUserContent_reread {m : Value} (kept : m.Kept depth) (key : String) :
    parseUserContent (m.reread.get key) = parseUserContent (m.get key) := by
  rw [kept.get_reread]
  cases hGet : m.get key with
  | none => rfl
  | some content =>
      have hKept := kept.get hGet
      cases content with
      | array parts =>
          show (rereadItems parts).filterMap parseUserPart = parts.filterMap parseUserPart
          rw [rereadItems_eq_map, List.filterMap_map]
          exact List.filterMap_congr fun p hp =>
            parseUserPart_reread (itemsKept_iff.mp hKept.2 p hp)
      | _ => rfl

theorem parseCall_reread {c : Value} (kept : c.Kept depth) : parseCall c.reread = parseCall c := by
  rw [parseCall, parseCall, optStr_reread kept, kept.get_reread]
  cases hGet : c.get "function" with
  | none => rfl
  | some f =>
      rw [Option.map_some, Option.getD_some, Option.getD_some, optStr_reread (kept.get hGet),
        optStr_reread (kept.get hGet)]

theorem parseAssistant_reread {m : Value} (kept : m.Kept depth) :
    parseAssistant m.reread = parseAssistant m := by
  have hCalls : ((optArr m.reread "tool_calls").getD []).map parseCall =
      ((optArr m "tool_calls").getD []).map parseCall := by
    obtain ⟨_, hItems⟩ := kept_items kept "tool_calls"
    rw [items_reread kept, List.map_map]
    exact List.map_congr_left fun c hc => parseCall_reread (hItems c hc)
  rw [parseAssistant, parseAssistant, messageBlocks, messageBlocks, optStr_reread kept,
    optStr_reread kept, hCalls]

theorem addMessage_reread {m : Value} (kept : m.Kept depth)
    (read : List ContentBlock × List Message) : addMessage read m.reread = addMessage read m := by
  rw [addMessage, addMessage, optStr_reread kept, optStr_reread kept,
    parseUserContent_reread kept, parseAssistant_reread kept]

theorem addMessages_reread {items : List Value} (kept : ∀ item ∈ items, item.Kept depth)
    (read : List ContentBlock × List Message) :
    (items.map Value.reread).foldlM addMessage read = items.foldlM addMessage read := by
  induction items generalizing read with
  | nil => rfl
  | cons m rest ih =>
      obtain ⟨hFirst, hRest⟩ := List.forall_mem_cons.mp kept
      rw [List.map_cons, List.foldlM_cons, List.foldlM_cons, addMessage_reread hFirst]
      exact congrArg (addMessage read m >>= ·) (funext fun read => ih hRest read)

theorem parseTool_reread {t : Value} (kept : t.Kept depth) :
    parseTool t.reread = (parseTool t).map respelled := by
  have hFunction : ∃ depth f, f.Kept depth ∧ (t.get "function").getD t = f ∧
      (t.reread.get "function").getD t.reread = f.reread := by
    rw [kept.get_reread]
    cases hGet : t.get "function" with
    | none => exact ⟨depth, t, kept, rfl, rfl⟩
    | some f => exact ⟨_, f, kept.get hGet, rfl, rfl⟩
  obtain ⟨_, f, hKept, hWritten, hRead⟩ := hFunction
  simp only [parseTool, hWritten, hRead, reqStr, optStr_reread hKept,
    bind_reread hKept "strict" asBool_reread, hKept.get_reread "parameters"]
  cases optStr f "name" with
  | none => rfl
  | some name => cases f.get "parameters" <;> rfl

theorem parseTools_reread {items : List Value} (kept : ∀ item ∈ items, item.Kept depth) :
    (items.map Value.reread).mapM parseTool =
      (items.mapM parseTool).map (List.map respelled) := by
  induction items with
  | nil => rfl
  | cons t rest ih =>
      obtain ⟨hFirst, hRest⟩ := List.forall_mem_cons.mp kept
      rw [List.map_cons, List.mapM_cons, List.mapM_cons, parseTool_reread hFirst, ih hRest]
      cases parseTool t with
      | error e => rfl
      | ok tool => cases rest.mapM parseTool <;> rfl

theorem parseToolChoice_reread {c : Value} (kept : c.Kept depth) :
    parseToolChoice c.reread = parseToolChoice c := by
  cases c with
  | object fields =>
      have hName : ((Value.object fields).reread.get "function").bind (optStr · "name") =
          ((Value.object fields).get "function").bind (optStr · "name") := by
        rw [kept.get_reread]
        cases hGet : (Value.object fields).get "function" with
        | none => rfl
        | some f => exact optStr_reread (kept.get hGet) "name"
      show Except.ok (ToolChoice.tool _) = Except.ok (ToolChoice.tool _)
      rw [← Value.reread, hName, optStr_reread kept]
  | _ => rfl

theorem parseStop_reread {v : Value} (kept : v.Kept depth) (key : String) :
    parseStop (v.reread.get key) = parseStop (v.get key) := by
  rw [kept.get_reread]
  cases v.get key with
  | none => rfl
  | some w =>
      cases w with
      | array items =>
          show (rereadItems items).filterMap Value.asStr = items.filterMap Value.asStr
          rw [rereadItems_eq_map, List.filterMap_map]
          exact List.filterMap_congr fun item _ => asStr_reread item
      | _ => rfl

end

/-! ### A body that is read -/

theorem parseBody_eq_ok {v : Value} {r : ChatRequest} (h : parseBody v = .ok r) :
    ∃ fields read tools choice, v = .object fields ∧
      ((optArr v "messages").getD []).foldlM addMessage ([], []) = .ok read ∧
      ((optArr v "tools").getD []).mapM parseTool = .ok tools ∧
      (v.get "tool_choice").mapM parseToolChoice = .ok choice ∧
      r = requestOf v read tools choice := by
  cases v with
  | object fields =>
      obtain ⟨read, hRead, h⟩ := bind_eq_ok.mp h
      obtain ⟨tools, hTools, h⟩ := bind_eq_ok.mp h
      obtain ⟨choice, hChoice, h⟩ := bind_eq_ok.mp h
      cases h
      exact ⟨fields, read, tools, choice, rfl, hRead, hTools, hChoice, rfl⟩
  | _ => cases h

theorem parseBody_of {fields : List (Str × Value)} {read : List ContentBlock × List Message}
    {tools : List Tool} {choice : Option ToolChoice}
    (hRead : ((optArr (.object fields) "messages").getD []).foldlM addMessage ([], []) = .ok read)
    (hTools : ((optArr (.object fields) "tools").getD []).mapM parseTool = .ok tools)
    (hChoice : ((Value.object fields).get "tool_choice").mapM parseToolChoice = .ok choice) :
    parseBody (.object fields) = .ok (requestOf (.object fields) read tools choice) := by
  simp only [parseBody, hRead, hTools, hChoice]
  rfl

/-- The same request, with its numbers in another spelling. -/
structure Respelled (r r' : ChatRequest) : Prop where
  same : r' = { r with
    temperature := r'.temperature
    topP := r'.topP
    tools := r.tools.map respelled
    nativeRequest := r'.nativeRequest }
  temperature : valueOf r'.temperature = valueOf r.temperature
  topP : valueOf r'.topP = valueOf r.topP

theorem parseBody_reread {depth : Nat} {v : Value} {r : ChatRequest} (kept : v.Kept depth)
    (h : parseBody v = .ok r) : ∃ r', parseBody v.reread = .ok r' ∧ Respelled r r' := by
  obtain ⟨fields, read, tools, choice, rfl, hRead, hTools, hChoice, rfl⟩ := parseBody_eq_ok h
  have hRead' : ((optArr (Value.object fields).reread "messages").getD []).foldlM addMessage
      ([], []) = .ok read := by
    obtain ⟨_, hItems⟩ := kept_items kept "messages"
    rw [items_reread kept, addMessages_reread hItems, hRead]
  have hTools' : ((optArr (Value.object fields).reread "tools").getD []).mapM parseTool =
      .ok (tools.map respelled) := by
    obtain ⟨_, hItems⟩ := kept_items kept "tools"
    rw [items_reread kept, parseTools_reread hItems, hTools]
    rfl
  have hChoice' : ((Value.object fields).reread.get "tool_choice").mapM parseToolChoice =
      .ok choice := by
    rw [kept.get_reread, ← hChoice]
    cases hGet : (Value.object fields).get "tool_choice" with
    | none => rfl
    | some c => exact congrArg (some <$> ·) (parseToolChoice_reread (kept.get hGet))
  have hUsage : ((((Value.object fields).reread.get "stream_options").bind
      (·.get "include_usage")).bind Value.asBool).getD false =
      ((((Value.object fields).get "stream_options").bind (·.get "include_usage")).bind
        Value.asBool).getD false := by
    rw [kept.get_reread]
    cases hGet : (Value.object fields).get "stream_options" with
    | none => rfl
    | some options =>
        exact congrArg (Option.getD · false) (bind_reread (kept.get hGet) _ asBool_reread)
  refine ⟨_, parseBody_of hRead' hTools' hChoice', ?_, valueOf_reread kept _, valueOf_reread kept _⟩
  show requestOf (Value.object fields).reread _ _ _ = _
  simp only [requestOf, optStr_reread kept, optBool_reread kept, optU32_reread kept, hUsage,
    parseStop_reread kept]
  rfl

/-! ### A body that is sent on -/

/-- The streaming options of a client, with the usage that the gateway asks for. -/
def usageOptions : Option Value → Value
  | some (.object options) => .object (insertField "include_usage".toList (.bool true) options)
  | _ => obj [("include_usage", .bool true)]

def streamedFields (o : EmitOptions) (body : List (Str × Value)) : List (Str × Value) :=
  if o.stream then
    let body := insertField "stream".toList (.bool true) body
    insertField "stream_options".toList (usageOptions (lookupField "stream_options".toList body)) body
  else body.filter (fun f => f.1 ≠ "stream".toList ∧ f.1 ≠ "stream_options".toList)

def sentFields (model : Str) (o : EmitOptions) (native : List (Str × Value)) :
    List (Str × Value) :=
  let body := streamedFields o (insertField "model".toList (.string model) native)
  match o.forceReasoningEffort with
  | some effort => insertField "reasoning_effort".toList (.string effort) body
  | none => body

theorem emitNativeBody_eq (native : List (Str × Value)) (model : Str) (o : EmitOptions) :
    emitNativeBody native model o = .object (sentFields model o native) := rfl

section
variable {key : Str} (o : EmitOptions) (body : List (Str × Value))

theorem lookupField_streamedFields (hStream : "stream".toList ≠ key)
    (hOptions : "stream_options".toList ≠ key) :
    lookupField key (streamedFields o body) = lookupField key body := by
  unfold streamedFields
  split_ifs
  · rw [lookupField_insertField, if_neg hOptions, lookupField_insertField, if_neg hStream]
  · have hKeep : (decide (key ≠ "stream".toList ∧ key ≠ "stream_options".toList)) = true :=
      decide_eq_true ⟨hStream.symm, hOptions.symm⟩
    exact (lookupField_filter (fun k => k ≠ "stream".toList ∧ k ≠ "stream_options".toList) key
      body).trans (if_pos hKeep)

theorem lookupField_sentFields (model : Str) (hEffort : "reasoning_effort".toList ≠ key) :
    lookupField key (sentFields model o body) =
      lookupField key (streamedFields o (insertField "model".toList (.string model) body)) := by
  unfold sentFields
  cases o.forceReasoningEffort with
  | none => rfl
  | some effort => exact (lookupField_insertField ..).trans (if_neg hEffort)

end

section
variable (model : Str) (o : EmitOptions) (native : List (Str × Value))

/-- The client's other members are sent as they came. -/
theorem get_sentFields {key : String}
    (h : key ∉ ["model", "stream", "stream_options", "reasoning_effort"]) :
    (Value.object (sentFields model o native)).get key = (Value.object native).get key := by
  have hOther {name : String} (hName : name ∈ ["model", "stream", "stream_options",
      "reasoning_effort"]) : name.toList ≠ key.toList := fun hSame =>
    h (String.toList_inj.mp hSame ▸ hName)
  rw [Value.get, Value.get, lookupField_sentFields _ _ _ (hOther (by simp)),
    lookupField_streamedFields _ _ (hOther (by simp)) (hOther (by simp)), lookupField_insertField,
    if_neg (hOther (by simp))]

theorem model_sentFields : optStr (.object (sentFields model o native)) "model" = some model := by
  rw [optStr, Value.get, lookupField_sentFields _ _ _ (by decide),
    lookupField_streamedFields _ _ (by decide) (by decide), lookupField_insertField, if_pos rfl]
  rfl

theorem effort_sentFields : optStr (.object (sentFields model o native)) "reasoning_effort" =
    o.forceReasoningEffort.or (optStr (.object native) "reasoning_effort") := by
  unfold sentFields
  cases o.forceReasoningEffort with
  | none =>
      show optStr (.object (streamedFields o _)) _ = optStr _ _
      rw [optStr, Value.get, lookupField_streamedFields _ _ (by decide) (by decide),
        lookupField_insertField, if_neg (by decide)]
      rfl
  | some effort =>
      show Option.bind (lookupField _ (insertField _ _ _)) _ = some effort
      rw [lookupField_insertField, if_pos rfl]
      rfl

/-- A stream is asked for with its usage, or no stream is. -/
theorem stream_sentFields : optBool (.object (sentFields model o native)) "stream" = o.stream ∧
    ((((Value.object (sentFields model o native)).get "stream_options").bind
      (·.get "include_usage")).bind Value.asBool).getD false = o.stream := by
  have hUsage (options : Option Value) :
      ((usageOptions options).get "include_usage").bind Value.asBool = some true := by
    cases options with
    | none => rfl
    | some w =>
        cases w with
        | object options =>
            show Option.bind (lookupField _ (insertField _ _ _)) _ = some true
            rw [lookupField_insertField, if_pos rfl]
            rfl
        | _ => rfl
  rw [optBool, Value.get, Value.get, lookupField_sentFields _ _ _ (by decide),
    lookupField_sentFields _ _ _ (by decide)]
  generalize insertField "model".toList _ native = body
  unfold streamedFields
  cases o.stream with
  | true =>
      rw [if_pos rfl, lookupField_insertField, if_neg (by decide), lookupField_insertField,
        if_pos rfl, lookupField_insertField, if_pos rfl]
      exact ⟨rfl, congrArg (Option.getD · false) (hUsage _)⟩
  | false =>
      have hNone (key : Str) (hKey : key = "stream".toList ∨ key = "stream_options".toList) :
          lookupField key (body.filter
            (fun f => f.1 ≠ "stream".toList ∧ f.1 ≠ "stream_options".toList)) = none :=
        (lookupField_filter (fun k => k ≠ "stream".toList ∧ k ≠ "stream_options".toList) key
          body).trans (if_neg (by rcases hKey with rfl | rfl <;> decide))
      rw [if_neg (by decide), hNone _ (.inl rfl), hNone _ (.inr rfl)]
      exact ⟨rfl, rfl⟩

end

section
variable {model : Str} {o : EmitOptions} {native : List (Str × Value)}

theorem kept_sentFields {depth : Nat} (kept : (Value.object native).Kept (depth + 2)) :
    (Value.object (sentFields model o native)).Kept (depth + 2) := by
  have hModel := kept_insertField kept (v := .string model) trivial "model".toList
  have hStreamed : (Value.object (streamedFields o
      (insertField "model".toList (.string model) native))).Kept (depth + 2) := by
    unfold streamedFields
    split_ifs
    · have hStream := kept_insertField hModel (v := .bool true) trivial "stream".toList
      refine kept_insertField hStream ?_ _
      cases hGet : lookupField "stream_options".toList (insertField "stream".toList (.bool true)
        (insertField "model".toList (.string model) native)) with
      | none => exact kept_obj (by simp)
      | some w =>
          cases w with
          | object options =>
              exact kept_insertField (v := .bool true)
                (fieldsKept_iff.mp hStream.2.2 _ (mem_of_lookupField hGet)) trivial _
          | _ => exact kept_obj (by simp)
    · exact kept_filter hModel _
  unfold sentFields
  cases o.forceReasoningEffort with
  | none => exact hStreamed
  | some effort => exact kept_insertField (v := .string effort) hStreamed trivial _

theorem held_sentFields (held : (Value.object native).Held) :
    (Value.object (sentFields model o native)).Held := by
  have hModel := held_insertField held (v := .string model) trivial "model".toList
  have hStreamed : (Value.object (streamedFields o
      (insertField "model".toList (.string model) native))).Held := by
    unfold streamedFields
    split_ifs
    · have hStream := held_insertField hModel (v := .bool true) trivial "stream".toList
      have hUsage : (obj [("include_usage", .bool true)]).Fits 1 := fits_obj (by simp)
      refine held_insertField hStream ?_ _
      cases hGet : lookupField "stream_options".toList (insertField "stream".toList (.bool true)
        (insertField "model".toList (.string model) native)) with
      | none => exact hUsage.1
      | some w =>
          cases w with
          | object options =>
              exact held_insertField (v := .bool true)
                (fieldsHeld_iff.mp hStream.2 _ (mem_of_lookupField hGet)) trivial _
          | _ => exact hUsage.1
    · exact held_filter hModel _
  unfold sentFields
  cases o.forceReasoningEffort with
  | none => exact hStreamed
  | some effort => exact held_insertField (v := .string effort) hStreamed trivial _

end

/-! ### From gateway to gateway -/

/-- The request that the next gateway reads. -/
def hop (r : ChatRequest) (o : EmitOptions) : ChatRequest :=
  { r with
    model := targetOf r.model o
    stream := o.stream
    includeUsage := o.stream
    reasoning := (o.forceReasoningEffort.map fun effort => { effort := some effort }).or r.reasoning
    nativeRequest := r.nativeRequest.map (sentFields (targetOf r.model o) o) }

theorem parseBody_sentFields {native : List (Str × Value)} {r : ChatRequest}
    (h : parseBody (.object native) = .ok r) (o : EmitOptions) :
    emitBody r o = .object (sentFields (targetOf r.model o) o native) ∧
      parseBody (.object (sentFields (targetOf r.model o) o native)) = .ok (hop r o) := by
  obtain ⟨_, read, tools, choice, hNative, hRead, hTools, hChoice, rfl⟩ := parseBody_eq_ok h
  cases hNative
  refine ⟨rfl, ?_⟩
  generalize hModel : targetOf _ o = model
  have hGet (key : String)
      (hKey : key ∉ ["model", "stream", "stream_options", "reasoning_effort"]) :
      (Value.object (sentFields model o native)).get key = (Value.object native).get key :=
    get_sentFields model o native hKey
  have hStr (key : String) (hKey : key ∉ ["model", "stream", "stream_options", "reasoning_effort"]) :
      optStr (.object (sentFields model o native)) key = optStr (.object native) key := by
    rw [optStr, optStr, hGet key hKey]
  have hReasoning : (optStr (.object (sentFields model o native)) "reasoning_effort").map
      (fun effort => ({ effort := some effort } : Reasoning)) =
      (o.forceReasoningEffort.map fun effort => { effort := some effort }).or
        ((optStr (.object native) "reasoning_effort").map fun effort => { effort := some effort }) := by
    rw [effort_sentFields]
    cases o.forceReasoningEffort <;> rfl
  refine (parseBody_of (by rwa [optArr, hGet _ (by decide)]) (by rwa [optArr, hGet _ (by decide)])
    (by rwa [hGet _ (by decide)])).trans (congrArg Except.ok ?_)
  simp only [requestOf, hop, hReasoning, model_sentFields, stream_sentFields, optU32, optF32,
    hStr "prompt_cache_key" (by decide), hStr "prompt_cache_retention" (by decide),
    hGet "max_tokens" (by decide), hGet "max_completion_tokens" (by decide),
    hGet "temperature" (by decide), hGet "top_p" (by decide), hGet "stop" (by decide),
    Option.getD_some, Option.map_some]
  rw [requestOf] at hModel
  simp only [hModel]

/-- Once the numbers are spelled as they are written, the request passes unchanged. -/
theorem relay_settled {native : List (Str × Value)} {r : ChatRequest}
    (kept : (Value.object native).Kept maxDepth) (held : (Value.object native).Held)
    (h : parseBody (.object native) = .ok r) (hops : List EmitOptions) :
    relay r hops = .ok (hops.foldl hop r) := by
  induction hops generalizing native r with
  | nil => rfl
  | cons o hops ih =>
      obtain ⟨hEmit, hParse⟩ := parseBody_sentFields h o
      have hKept : (Value.object (sentFields (targetOf r.model o) o native)).Kept maxDepth :=
        kept_sentFields kept
      have hHeld : (Value.object (sentFields (targetOf r.model o) o native)).Held :=
        held_sentFields held
      have hRead : parseRequest (toUtf8 (emitRequest r o).1) = .ok (hop r o) := by
        rw [parseRequest, emitRequest, hEmit, hKept.fromSlice, hHeld.reread_eq]
        exact hParse
      rw [relay, hRead]
      exact ih hKept hHeld hParse

/-- What hops change is the model, the streaming, the effort and the body. -/
theorem foldl_hop (r : ChatRequest) (hops : List EmitOptions) :
    ∃ stream includeUsage nativeRequest, hops.foldl hop r = { r with
      model := hops.foldl targetOf r.model
      stream, includeUsage, nativeRequest
      reasoning := hops.foldl
        (fun reasoning o => (o.forceReasoningEffort.map fun effort => { effort := some effort }).or
          reasoning) r.reasoning } ∧
      (hops = [] → stream = r.stream ∧ includeUsage = r.includeUsage) ∧
      ∀ o ∈ hops.getLast?, stream = o.stream ∧ includeUsage = o.stream := by
  induction hops generalizing r with
  | nil => exact ⟨_, _, _, rfl, fun _ => ⟨rfl, rfl⟩, fun _ h => nomatch h⟩
  | cons o hops ih =>
      obtain ⟨stream, includeUsage, nativeRequest, hLast, hNone, hSome⟩ := ih (hop r o)
      refine ⟨stream, includeUsage, nativeRequest, hLast, (fun h => nomatch h), fun o' ho' => ?_⟩
      cases hops with
      | nil =>
          obtain rfl : o = o' := Option.some.inj ho'
          exact hNone rfl
      | cons next hops => exact hSome o' ho'

/-- A body that is sent is read by the next gateway, and sent on from there. -/
theorem relay_sent {v : Value} {r : ChatRequest} (kept : v.Kept maxDepth)
    (h : parseBody v = .ok r) (hops : List EmitOptions) :
    ∃ r', parseRequest (toUtf8 v.render) = .ok r' ∧ Respelled r r' ∧
      relay r' hops = .ok (hops.foldl hop r') := by
  obtain ⟨fields, -, -, -, rfl, -⟩ := parseBody_eq_ok h
  obtain ⟨r', hParse, hSame⟩ := parseBody_reread kept h
  have hFits := kept.fits_reread
  refine ⟨r', ?_, hSame, relay_settled (kept_of_fromSlice kept.fromSlice) hFits.1 hParse hops⟩
  rw [parseRequest, kept.fromSlice]
  exact hParse

/-- What is told of a request that was sent on once, as the next gateway read it. -/
theorem Respelled.arrives {r r' : ChatRequest} {o : EmitOptions} (h : Respelled (hop r o) r')
    (hops : List EmitOptions) : Arrives r (o :: hops) (hops.foldl hop r') := by
  obtain ⟨stream, includeUsage, native, hLast, hNone, hSome⟩ := foldl_hop r' hops
  have hSame := h.same
  rw [hLast]
  exact {
    messages := (congrArg ChatRequest.messages hSame :)
    system := (congrArg ChatRequest.system hSame :)
    tools := (congrArg ChatRequest.tools hSame :)
    toolChoice := (congrArg ChatRequest.toolChoice hSame :)
    maxTokens := (congrArg ChatRequest.maxTokens hSame :)
    temperature := h.temperature
    topP := h.topP
    stop := (congrArg ChatRequest.stop hSame :)
    cacheKey := (congrArg ChatRequest.promptCacheKey hSame :)
    retention := (congrArg ChatRequest.promptCacheRetention hSame :)
    model := (congrArg (hops.foldl targetOf ·.model) hSame :)
    stream := fun o' ho' => by
      cases hops with
      | nil =>
          obtain rfl : o = o' := Option.some.inj ho'
          obtain ⟨rfl, rfl⟩ := hNone rfl
          exact ⟨congrArg ChatRequest.stream hSame, congrArg ChatRequest.includeUsage hSame⟩
      | cons next hops => exact hSome o' ho'
    effort := (congrArg (hops.foldl _ ·.reasoning) hSame :) }

/-- However many gateways stand behind one another, the last upstream is told the
conversation that the first client sent, and the model, the streaming and the effort that
the gateways ask for. -/
theorem relayed {bytes : List UInt8} {r : ChatRequest} (parsed : parseRequest bytes = .ok r)
    (o : EmitOptions) (hops : List EmitOptions) :
    ∃ last, relay r (o :: hops) = .ok last ∧ Arrives r (o :: hops) last := by
  unfold parseRequest at parsed
  split at parsed
  · cases parsed
  · next v hBody =>
      have kept := kept_of_fromSlice hBody
      obtain ⟨fields, -, -, -, rfl, -⟩ := parseBody_eq_ok parsed
      obtain ⟨hEmit, hParse⟩ := parseBody_sentFields parsed o
      have hKept : (Value.object (sentFields (targetOf r.model o) o fields)).Kept maxDepth :=
        kept_sentFields kept
      obtain ⟨r', hRead, hSame, hRelay⟩ := relay_sent hKept hParse hops
      refine ⟨_, ?_, hSame.arrives hops⟩
      rw [relay, emitRequest, hEmit, hRead]
      exact hRelay

def helloBody : Value :=
  obj [("messages", .array [systemMessage "Be brief.".toList,
      obj [("role", .string "user".toList), ("content", .string "hi".toList)]]),
    ("model", .string "small".toList), ("temperature", .number (.posInt 1))]

/-- Two gateways, the second of which asks for an effort. -/
theorem hello_relayed : ∃ r last, parseRequest (toUtf8 helloBody.render) = .ok r ∧
    relay r [⟨"middle".toList, none, true⟩, ⟨"large".toList, some "low".toList, true⟩] = .ok last ∧
      Arrives r [⟨"middle".toList, none, true⟩, ⟨"large".toList, some "low".toList, true⟩] last := by
  have hBody : fromSlice (toUtf8 helloBody.render) = some helloBody := by decide +kernel
  have hParsed : parseRequest (toUtf8 helloBody.render) = .ok (requestOf helloBody
      ([.text "Be brief.".toList], [⟨.user, [.text "hi".toList]⟩]) [] none) := by
    rw [parseRequest, hBody]
    rfl
  obtain ⟨last, hLast⟩ := relayed hParsed ⟨"middle".toList, none, true⟩
    [⟨"large".toList, some "low".toList, true⟩]
  exact ⟨_, last, hParsed, hLast⟩

end Gateway.Wire.OpenaiChat
