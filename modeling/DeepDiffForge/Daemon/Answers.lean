import DeepDiffForge.Core.Display
import DeepDiffForge.Daemon.Sessions
import DeepDiffForge.Lib.JsonValue
import DeepDiffForge.Lib.Slices

/-! One request line of the daemon, answered by one line within the response cap: the error codes,
the bound on an error's message, and what a response is. -/

namespace DeepDiffForge.Daemon
open Text Slices Json SessionTable DeepDiffForge.Core

def parseError : Int := -32700

def invalidRequest : Int := -32600

def methodNotFound : Int := -32601

def invalidParams : Int := -32602

def internalError : Int := -32603

def maxErrorMessageBytes : Nat := 4096

/-- A message cut at a character boundary, with the count of bytes left out. -/
def boundedMessage (message : Str) : Str :=
  let bytes := Utf8.encode message
  if bytes.length ≤ maxErrorMessageBytes then message
  else
    let stop := ((List.range (maxErrorMessageBytes + 1)).reverse.find?
      (isCharBoundary bytes)).getD 0
    (sliceTo message stop).toOption.getD [] ++ omitted (bytes.length - stop)

def Responds (id response : Value) : Prop :=
  ∃ members, response = .object members ∧
    lookup members "jsonrpc".toList = some (.string "2.0".toList) ∧
    lookup members "id".toList = some id ∧
    ((lookup members "result".toList).isSome ↔ lookup members "error".toList = none)

def maxRequestBytes : Nat := 80 * 1024 * 1024

def maxResponseBytes : Nat := maxRequestBytes

/-- An error whose message is bounded, as `RpcError::new` makes it. -/
def newRpcError (code : Int) (message : Str) : RpcError := ⟨code, boundedMessage message⟩

structure Request where
  jsonrpc : Str
  id : Value
  method : Str
  params : Value

/-- What the daemon takes from elsewhere: the JSON reader, whose errors say whether the text ended
too early, how long a request that is not admitted waited, and the dispatcher, none a panic. -/
structure Engine where
  parse : Str → Except (Str × Bool) Value
  busy : Request → Nat → Option Nat
  dispatch : Request → Option (Except RpcError Value)

def isRequestId : Value → Bool
  | .null | .string _ | .integer _ | .float _ => true
  | _ => false

def isRequestParams : Value → Bool
  | .null | .object _ | .array _ => true
  | _ => false

def parseRequest (parse : Str → Except (Str × Bool) Value) (line : Str) :
    Except RpcError Request :=
  match parse line with
  | .error (reason, eof) =>
      .error (newRpcError parseError (reason ++ if eof then
        "; each request must be one JSON value on one line (compact JSON, such as ".toList ++
          "\x60jq -c\x60)".toList else []))
  | .ok value =>
      match value.asObject with
      | none => .error (newRpcError invalidRequest "request must be a JSON object".toList)
      | some object =>
          let marker := lookup object "jsonrpc".toList
          if marker.any (·.asText ≠ some "2.0".toList) then
            .error (newRpcError invalidRequest "jsonrpc must be exactly \"2.0\"".toList)
          else
            match ((lookup object "method".toList).bind Value.asText).filter
              fun method => method ≠ [] ∧ byteLength method ≤ 256 with
            | none => .error (newRpcError invalidRequest
                "method must be a non-empty string of at most 256 bytes".toList)
            | some method =>
                let id := (lookup object "id".toList).getD .null
                let params := (lookup object "params".toList).getD .null
                if ¬isRequestId id then
                  .error (newRpcError invalidRequest "id must be a string, number, or null".toList)
                else if ¬isRequestParams params then
                  .error (newRpcError invalidRequest
                    "params must be an object, array, or null".toList)
                else .ok ⟨(marker.bind Value.asText).getD [], id, method, params⟩

def successResponse (id result : Value) : Str :=
  (Value.object [("id".toList, id), ("jsonrpc".toList, .string "2.0".toList),
    ("result".toList, result)]).write

def errorResponse (id : Value) (error : RpcError) : Str :=
  (Value.object
    [("error".toList, .object [("code".toList, .integer error.code),
        ("message".toList, .string (boundedMessage error.message))]),
      ("id".toList, id), ("jsonrpc".toList, .string "2.0".toList)]).write

def overCap (bytes cap : Nat) : RpcError :=
  newRpcError resourceExhausted ("the response is ".toList ++ decimal bytes ++
    " bytes, over the ".toList ++ decimal cap ++
    "-byte line cap; request less (a smaller patch, or diff.plan)".toList)

/-- The response as it is written, or the error that says it is over the cap: for its id, or for
none when the id alone puts that error over the cap too. -/
def boundedResponse (id : Value) (response : Str) (cap : Nat) : Str :=
  let response := lineSafe response
  if byteLength response ≤ cap then response
  else
    let refusal := overCap (byteLength response) cap
    let answer := lineSafe (errorResponse id refusal)
    if byteLength answer ≤ cap then answer
    else
      let anonymous := errorResponse .null refusal
      if byteLength anonymous < byteLength answer then anonymous else answer

def busyMessage (waited : Nat) : Str :=
  "the daemon is busy: no room in its in-flight budget after ".toList ++ decimal waited ++
    " ms; retry later".toList

def respond (engine : Engine) (line : Str) (request : Request) : Str :=
  match engine.busy request (byteLength line) with
  | some waited =>
      errorResponse request.id (newRpcError resourceExhausted (busyMessage waited))
  | none =>
      match engine.dispatch request with
      | some (.ok result) => successResponse request.id result
      | some (.error error) => errorResponse request.id error
      | none => errorResponse request.id (newRpcError internalError "internal error".toList)

def answerTo (engine : Engine) (line : Str) : Value × Str :=
  match parseRequest engine.parse line with
  | .error error => (.null, errorResponse .null error)
  | .ok request => (request.id, respond engine line request)

def processLineWithin (engine : Engine) (cap : Nat) (line : Str) : Str :=
  boundedResponse (answerTo engine line).1 (answerTo engine line).2 cap

def processLine (engine : Engine) (line : Str) : Str :=
  processLineWithin engine maxResponseBytes line

def Answers (id : Value) (text : Str) : Prop :=
  ∃ response, text = response.write ∧ Responds id response

theorem answers_error (id : Value) (error : RpcError) : Answers id (errorResponse id error) := by
  refine ⟨_, rfl, _, rfl, rfl, rfl, ?_⟩
  constructor
  · intro absent
    cases absent
  · intro absent
    cases absent

theorem answers_success (id result : Value) : Answers id (successResponse id result) :=
  ⟨_, rfl, _, rfl, rfl, rfl, iff_of_true rfl rfl⟩

theorem respond_answers (engine : Engine) (line : Str) (request : Request) :
    Answers request.id (respond engine line request) := by
  unfold respond
  cases engine.busy request (byteLength line) with
  | some waited => exact answers_error ..
  | none =>
    cases engine.dispatch request with
    | none => exact answers_error ..
    | some outcome =>
      cases outcome with
      | ok result => exact answers_success ..
      | error error => exact answers_error ..

theorem answerTo_answers (engine : Engine) (line : Str) :
    Answers (answerTo engine line).1 (answerTo engine line).2 := by
  unfold answerTo
  cases parseRequest engine.parse line with
  | error error => exact answers_error ..
  | ok request => exact respond_answers engine line request

theorem write_error (code message id : Str) :
    object [("error".toList, object [("code".toList, code), ("message".toList, message)]),
      ("id".toList, id), ("jsonrpc".toList, Json.string "2.0".toList)] =
    "\x7b\"error\":\x7b\"code\":".toList ++ code ++ ",\"message\":".toList ++ message ++
      "\x7d,\"id\":".toList ++ id ++ ",\"jsonrpc\":\"2.0\"\x7d".toList := by
  simp [object, member, Json.string, escapeChar, List.intercalate]

theorem errorResponse_eq (id : Value) (error : RpcError) :
    errorResponse id error = "\x7b\"error\":\x7b\"code\":".toList ++ integerText error.code ++
      ",\"message\":".toList ++ Json.string (boundedMessage error.message) ++
        "\x7d,\"id\":".toList ++ id.write ++ ",\"jsonrpc\":\"2.0\"\x7d".toList :=
  write_error ..

theorem size_errorResponse (id : Value) (error : RpcError) :
    size (errorResponse id error) =
      size (integerText error.code) + size (Json.string (boundedMessage error.message)) +
        size id.write + 52 := by
  have opening : size "\x7b\"error\":\x7b\"code\":".toList = 17 := by decide
  have message : size ",\"message\":".toList = 11 := by decide
  have held : size "\x7d,\"id\":".toList = 7 := by decide
  have closing : size ",\"jsonrpc\":\"2.0\"\x7d".toList = 17 := by decide
  rw [errorResponse_eq]
  simp only [size_append]
  omega

theorem boundedMessage_short (message : Str) (short : byteLength message ≤ maxErrorMessageBytes) :
    boundedMessage message = message :=
  if_pos short

theorem plain_overCap (bytes cap : Nat) :
    ∀ c ∈ "the response is ".toList ++ decimal bytes ++ " bytes, over the ".toList ++ decimal cap ++
      "-byte line cap; request less (a smaller patch, or diff.plan)".toList, plain c = true := by
  have first : ∀ c ∈ "the response is ".toList, plain c = true := List.all_eq_true.1 (by decide)
  have second : ∀ c ∈ " bytes, over the ".toList, plain c = true := List.all_eq_true.1 (by decide)
  have third : ∀ c ∈ "-byte line cap; request less (a smaller patch, or diff.plan)".toList,
      plain c = true := List.all_eq_true.1 (by decide)
  intro c listed
  simp only [List.mem_append] at listed
  rcases listed with (((one | digit) | two) | digit) | three
  · exact first c one
  · exact plain_decimal bytes c digit
  · exact second c two
  · exact plain_decimal cap c digit
  · exact third c three

/-- A machine word takes at most twenty digits. -/
theorem length_decimal_word (n : Nat) (word : n < 2 ^ 64) : (decimal n).length ≤ 20 := by
  rw [decimal, Nat.length_toDigits_le_iff (by decide) (by decide)]
  omega

theorem overCap_message (bytes cap : Nat) (sized : bytes < 2 ^ 64) (machine : cap < 2 ^ 64) :
    (overCap bytes cap).code = resourceExhausted ∧
      boundedMessage (overCap bytes cap).message = (overCap bytes cap).message ∧
      (overCap bytes cap).message.length ≤ 133 ∧
      ∀ c ∈ (overCap bytes cap).message, plain c = true := by
  have plain' := plain_overCap bytes cap
  have first := length_decimal_word bytes sized
  have second := length_decimal_word cap machine
  generalize whole : "the response is ".toList ++ decimal bytes ++ " bytes, over the ".toList ++
    decimal cap ++ "-byte line cap; request less (a smaller patch, or diff.plan)".toList = text
    at plain'
  have length : text.length ≤ 133 := by
    have opening : "the response is ".toList.length = 16 := by decide
    have middle : " bytes, over the ".toList.length = 17 := by decide
    have closing : "-byte line cap; request less (a smaller patch, or diff.plan)".toList.length =
      60 := by decide
    rw [← whole]
    simp only [List.length_append]
    omega
  have short : byteLength text ≤ maxErrorMessageBytes := by
    rw [byteLength, encode_printable text fun c listed => printable_of_plain c (plain' c listed),
      maxErrorMessageBytes]
    omega
  have message : (overCap bytes cap).message = text := by
    rw [overCap, newRpcError, whole]
    exact boundedMessage_short text short
  rw [message]
  exact ⟨rfl, boundedMessage_short text short, length, plain'⟩

/-- A refusal without its id is short, and needs no escape. -/
theorem anonymous_short (bytes cap : Nat) (sized : bytes < 2 ^ 64) (machine : cap < 2 ^ 64) :
    (∀ c ∈ errorResponse .null (overCap bytes cap), printable c = true) ∧
      size (errorResponse .null (overCap bytes cap)) ≤ 192 := by
  obtain ⟨code, same, length, plain'⟩ := overCap_message bytes cap sized machine
  have text := size_string_plain _ plain'
  constructor
  · have opening : ∀ c ∈ "\x7b\"error\":\x7b\"code\":8,\"message\":\"".toList,
        printable c = true := List.all_eq_true.1 (by decide)
    have closing : ∀ c ∈ "\"\x7d,\"id\":null,\"jsonrpc\":\"2.0\"\x7d".toList,
        printable c = true := List.all_eq_true.1 (by decide)
    have written : errorResponse .null (overCap bytes cap) =
        "\x7b\"error\":\x7b\"code\":8,\"message\":\"".toList ++ (overCap bytes cap).message ++
          "\"\x7d,\"id\":null,\"jsonrpc\":\"2.0\"\x7d".toList := by
      have digit : integerText resourceExhausted = ['8'] := by decide
      rw [errorResponse_eq, same, code, string_plain _ plain', digit]
      simp [Value.write, Json.null]
    intro c listed
    rw [written] at listed
    simp only [List.mem_append] at listed
    rcases listed with (one | text) | two
    · exact opening c one
    · exact printable_of_plain c (plain' c text)
    · exact closing c two
  · rw [size_errorResponse, same, code, text]
    have digit : size (integerText resourceExhausted) = 1 := by decide
    have null : size Value.null.write = 4 := by decide
    omega

/-- A refusal that does not fit with its id goes without. -/
theorem boundedResponse_anonymous (id : Value) (response : Str) (cap : Nat) (room : 8192 ≤ cap)
    (machine : cap < 2 ^ 64) (sized : size response < 2 ^ 64) (long : cap < size response)
    (unfit : cap < size (errorResponse id (overCap (size response) cap))) :
    boundedResponse id response cap =
        lineSafe (errorResponse .null (overCap (size response) cap)) ∧
      size (errorResponse .null (overCap (size response) cap)) ≤ 192 := by
  obtain ⟨printed, short⟩ := anonymous_short (size response) cap sized machine
  have raw := encode_printable _ printed
  refine ⟨?_, short⟩
  rw [size_printable _ printed] at short
  have shorter : byteLength (errorResponse .null (overCap (size response) cap)) <
      size (errorResponse id (overCap (size response) cap)) := by
    rw [byteLength]
    omega
  rw [lineSafe_printable _ printed]
  exact (if_neg (Nat.not_le.2 long)).trans ((if_neg (Nat.not_le.2 unfit)).trans (if_pos shorter))

theorem boundedResponse_fits (id : Value) (response : Str) (cap : Nat) (room : 8192 ≤ cap)
    (machine : cap < 2 ^ 64) (sized : size response < 2 ^ 64) (answers : Answers id response) :
    ∃ answer held, boundedResponse id response cap = lineSafe answer ∧ Answers held answer ∧
      size answer ≤ cap ∧
      (held = id ∨ held = .null ∧ cap < size response ∧
        cap < size (errorResponse id (overCap (size response) cap))) := by
  by_cases fits : size response ≤ cap
  · exact ⟨response, id, if_pos fits, answers, fits, .inl rfl⟩
  · by_cases answered : size (errorResponse id (overCap (size response) cap)) ≤ cap
    · exact ⟨_, id, (if_neg fits).trans (if_pos answered), answers_error .., answered, .inl rfl⟩
    · rw [Nat.not_le] at fits answered
      obtain ⟨same, short⟩ := boundedResponse_anonymous id response cap room machine sized fits
        answered
      exact ⟨_, .null, same, answers_error .., by omega, .inr ⟨rfl, fits, answered⟩⟩

/-- One bounded line out for every line in. It answers the id of a valid request, unless neither
the response nor the refusal of it fits with that id. -/
theorem processLine_bounded (engine : Engine) (cap : Nat) (line : Str) (room : 8192 ≤ cap)
    (machine : cap < 2 ^ 64) (sized : size (answerTo engine line).2 < 2 ^ 64) :
    ∃ response id, processLineWithin engine cap line = lineSafe response.write ∧
      Responds id response ∧ LineSafe (processLineWithin engine cap line) ∧
      byteLength (processLineWithin engine cap line) ≤ cap ∧
      match parseRequest engine.parse line with
      | .error _ => id = .null
      | .ok request => id = request.id ∨ id = .null ∧
          cap < size (respond engine line request) ∧
          cap < size (errorResponse request.id
            (overCap (size (respond engine line request)) cap)) := by
  obtain ⟨answer, held, written, ⟨response, rfl, responds⟩, within, id⟩ :=
    boundedResponse_fits _ _ cap room machine sized (answerTo_answers engine line)
  rw [← processLineWithin] at written
  refine ⟨response, held, written, responds, written ▸ lineSafe_write response,
    written ▸ within, ?_⟩
  unfold answerTo at id
  cases read : parseRequest engine.parse line with
  | error error =>
    rw [read] at id
    exact id.elim (fun same => same) And.left
  | ok request =>
    rw [read] at id
    exact id

def requestLine (id : Str) : Str :=
  "\x7b\"id\":\"".toList ++ id ++ "\",\"method\":\"x\"\x7d".toList

def unknownMethod (id : Str) : Engine where
  parse line :=
    if line = requestLine id then
      .ok (.object [("id".toList, .string id), ("method".toList, .string "x".toList)])
    else .error ("expected value at line 1 column 1".toList, false)
  busy _ _ := none
  dispatch request :=
    some (.error (newRpcError methodNotFound ("method not found: ".toList ++ request.method)))

theorem processLine_bounded_unknown :
    ∃ response id, processLineWithin (unknownMethod "7".toList) 8192 (requestLine "7".toList) =
        lineSafe response.write ∧
      Responds id response ∧
      LineSafe (processLineWithin (unknownMethod "7".toList) 8192 (requestLine "7".toList)) ∧
      byteLength (processLineWithin (unknownMethod "7".toList) 8192 (requestLine "7".toList)) ≤
        8192 ∧
      match parseRequest (unknownMethod "7".toList).parse (requestLine "7".toList) with
      | .error _ => id = .null
      | .ok request => id = request.id ∨ id = .null ∧
          8192 < size (respond (unknownMethod "7".toList) (requestLine "7".toList) request) ∧
          8192 < size (errorResponse request.id (overCap (size
            (respond (unknownMethod "7".toList) (requestLine "7".toList) request)) 8192)) :=
  processLine_bounded _ 8192 _ (by decide) (by decide) (by decide +kernel)

theorem size_responds (id response : Value) (responds : Responds id response) :
    size id.write ≤ size response.write := by
  obtain ⟨members, rfl, -, held, -⟩ := responds
  obtain ⟨⟨name, value⟩, found, rfl⟩ := Option.map_eq_some_iff.1 held
  exact size_written members name value (List.mem_of_find?_eq_some found)

theorem parse_requestLine (id : Str) :
    parseRequest (unknownMethod id).parse (requestLine id) =
      .ok ⟨[], .string id, "x".toList, .null⟩ := by
  have read : (unknownMethod id).parse (requestLine id) =
      .ok (.object [("id".toList, .string id), ("method".toList, .string "x".toList)]) := if_pos rfl
  rw [parseRequest, read]
  rfl

theorem processLine_unknown (id : Str) (cap : Nat) :
    processLineWithin (unknownMethod id) cap (requestLine id) =
      boundedResponse (.string id) (errorResponse (.string id)
        (newRpcError methodNotFound "method not found: x".toList)) cap := by
  rw [processLineWithin, answerTo, parse_requestLine]
  rfl

theorem size_unknown (id : Value) :
    size (errorResponse id (newRpcError methodNotFound "method not found: x".toList)) =
      size id.write + 79 := by
  rw [size_errorResponse]
  have rest : size (integerText (newRpcError methodNotFound "method not found: x".toList).code) +
      size (Json.string (boundedMessage
        (newRpcError methodNotFound "method not found: x".toList).message)) = 27 := by
    decide +kernel
  omega

/-- An id within the cap is dropped when no response fits with it. -/
theorem drops_near_id :
    ∃ request, parseRequest (unknownMethod (List.replicate 83886050 'a')).parse
        (requestLine (List.replicate 83886050 'a')) = .ok request ∧
      size request.id.write ≤ maxResponseBytes ∧
      ¬∃ response, processLine (unknownMethod (List.replicate 83886050 'a'))
          (requestLine (List.replicate 83886050 'a')) = lineSafe response.write ∧
        Responds request.id response := by
  have plain' : ∀ c ∈ List.replicate 83886050 'a', plain c = true := by
    intro c listed
    rw [List.eq_of_mem_replicate listed]
    decide
  have long : size (Value.string (List.replicate 83886050 'a')).write = 83886052 := by
    rw [Value.write, size_string_plain _ plain', List.length_replicate]
  generalize List.replicate 83886050 'a' = id at long
  have cap : maxResponseBytes = 83886080 := rfl
  refine ⟨_, parse_requestLine id, long ▸ (by omega), ?_⟩
  rintro ⟨response, written, responds⟩
  have holds : size (Value.string id).write ≤ size response.write := size_responds _ _ responds
  have whole := size_unknown (.string id)
  have refusal := size_errorResponse (.string id) (overCap (size (errorResponse (.string id)
    (newRpcError methodNotFound "method not found: x".toList))) maxResponseBytes)
  obtain ⟨same, short⟩ := boundedResponse_anonymous (.string id) (errorResponse (.string id)
    (newRpcError methodNotFound "method not found: x".toList)) maxResponseBytes (by omega)
    (by omega) (by omega) (by omega) (by omega)
  rw [processLine, processLine_unknown, same] at written
  have less : size response.write ≤ 192 := by
    rw [size, ← written]
    exact short
  omega

end DeepDiffForge.Daemon
