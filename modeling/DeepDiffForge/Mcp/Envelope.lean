import DeepDiffForge.Daemon.Answers

/-! The answer of the MCP server to one line: envelope checks, the handshake of legacy clients and
the era of every other request. -/

namespace DeepDiffForge.Mcp
open Text Json DeepDiffForge.Core DeepDiffForge.Daemon

def modern : Str := "2026-07-28".toList

def legacyVersions : List Str :=
  ["2025-11-25".toList, "2025-06-18".toList, "2025-03-26".toList]

def protocolVersionKey : Str := "io.modelcontextprotocol/protocolVersion".toList

def clientCapabilitiesKey : Str := "io.modelcontextprotocol/clientCapabilities".toList

def serverInfoKey : Str := "io.modelcontextprotocol/serverInfo".toList

def unsupportedProtocolVersion : Int := -32022

def echoBytes : Nat := 1024

/-- What the server takes from elsewhere: the JSON reader, the tools it lists and what its nth line's
tool call answers, and the texts of its release. -/
structure Host where
  parse : Str → Except Str Value
  tools : List Value
  callTool : Nat → List (Str × Value) → Except (Int × Str) (List (Str × Value))
  instructions : Str
  version : Str

inductive Era
  | modern
  | legacy (version : Str)
  deriving DecidableEq

structure Server where
  legacy : Option Str := none
  deriving DecidableEq

def error (id : Value) (code : Int) (message : Str) (data : Option Value) : Value :=
  .object
    [("error".toList, .object (("code".toList, .integer code) ::
        (data.toList.map (("data".toList, ·)) ++
          [("message".toList, .string (boundedMessage message))]))),
      ("id".toList, id), ("jsonrpc".toList, .string "2.0".toList)]

def success (id result : Value) : Value :=
  .object [("id".toList, id), ("jsonrpc".toList, .string "2.0".toList), ("result".toList, result)]

def serverInfo (host : Host) : Value :=
  .object [("name".toList, .string "deep-diff-forge".toList),
    ("version".toList, .string host.version)]

def eraOf (params : List (Str × Value)) (legacy : Option Str) : Except (Value → Value) Era :=
  let meta' := (lookup params "_meta".toList).bind Value.asObject
  let unsupported (requested : Value) (id : Value) : Value :=
    error id unsupportedProtocolVersion "Unsupported protocol version".toList
      (some (.object [("requested".toList, requested),
        ("supported".toList, .array ((modern :: legacyVersions).map .string))]))
  match meta'.bind (lookup · protocolVersionKey) with
  | some requested =>
      if requested.asText = some modern then
        if (meta'.bind (lookup · clientCapabilitiesKey)).any (·.asObject.isSome) then .ok .modern
        else .error fun id =>
          error id invalidParams ("_meta needs ".toList ++ clientCapabilitiesKey) none
      else .error (unsupported requested)
  | none =>
      match legacy with
      | some version => .ok (.legacy version)
      | none => .error fun id =>
          error id invalidParams ("_meta needs ".toList ++ protocolVersionKey ++ " (".toList ++
            modern ++ "), or send initialize first".toList) none

/-- The legacy handshake: a legacy version the client asked for, or the newest. -/
def initialize' (host : Host) (id : Value) (params : List (Str × Value)) : Value × Server :=
  let requested := ((lookup params "protocolVersion".toList).bind Value.asText).getD []
  let version := (legacyVersions.find? (· = requested)).getD "2025-11-25".toList
  (success id (.object
    [("capabilities".toList, .object [("tools".toList, .object [])]),
      ("instructions".toList, .string host.instructions),
      ("protocolVersion".toList, .string version), ("serverInfo".toList, serverInfo host)]),
    { legacy := some version })

def methodResult (host : Host) (call : Nat) (era : Era) (method : Str)
    (params : List (Str × Value)) : Except (Int × Str) (List (Str × Value)) :=
  if method = "server/discover".toList ∧ era = .modern then
    .ok [("capabilities".toList, .object [("tools".toList, .object [])]),
      ("instructions".toList, .string host.instructions),
      ("supportedVersions".toList, .array [.string modern])]
  else if method = "ping".toList then .ok []
  else if method = "tools/list".toList then .ok [("tools".toList, .array host.tools)]
  else if method = "tools/call".toList then host.callTool call params
  else .error (methodNotFound,
    "method not found: ".toList ++ displaySafeBounded method echoBytes)

def stamped (host : Host) (era : Era) (result : List (Str × Value)) : List (Str × Value) :=
  if era = .modern then
    setMember "_meta".toList (.object [(serverInfoKey, serverInfo host)])
      (setMember "resultType".toList (.string "complete".toList) result)
  else result

def Server.request (host : Host) (call : Nat) (server : Server) (id : Value) (method : Str)
    (params : List (Str × Value)) : Value × Server :=
  if method = "initialize".toList then initialize' host id params
  else match eraOf params server.legacy with
    | .error reject => (reject id, server)
    | .ok era =>
        match methodResult host call era method params with
        | .ok result => (success id (.object (stamped host era result)), server)
        | .error (code, message) => (error id code message none, server)

def validId : Value → Bool
  | .string _ | .integer _ => true
  | _ => false

/-- The answer to an object, if any: only a JSON-RPC 2.0 envelope is acted on. -/
def Server.handleObject (host : Host) (call : Nat) (server : Server)
    (object : List (Str × Value)) : Option Value × Server :=
  let method := (lookup object "method".toList).bind Value.asText
  let id := lookup object "id".toList
  if (lookup object "jsonrpc".toList).bind Value.asText ≠ some "2.0".toList then
    (id.map fun id => error (if validId id then id else .null) invalidRequest
      "jsonrpc must be \"2.0\"".toList none, server)
  else
    match id.filter validId, method with
    | none, method =>
        (if id.isSome ∧ method.isSome then
          some (error .null invalidRequest "id must be a string or an integer".toList none)
        else none, server)
    | some id, none =>
        (some (error id invalidRequest "a request needs a method".toList none), server)
    | some id, some method =>
        match ((lookup object "params".toList).getD (.object [])).asObject with
        | none => (some (error id invalidParams "params must be an object".toList none), server)
        | some params =>
            let (response, server) := server.request host call id method params
            (some response, server)

def Server.handleLine (host : Host) (call : Nat) (server : Server) (line : Str) :
    Option Value × Server :=
  match host.parse line with
  | .error reason => (some (error .null parseError ("parse error: ".toList ++ reason) none), server)
  | .ok message =>
      match message.asObject with
      | none =>
          (some (error .null invalidRequest "a message must be a JSON object".toList none), server)
      | some object => server.handleObject host call object

end DeepDiffForge.Mcp
