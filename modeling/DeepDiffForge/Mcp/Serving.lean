import DeepDiffForge.Lib.Reads
import DeepDiffForge.Mcp.Envelope
import DeepDiffForge.Patch.Headers

/-! The MCP server over a stream: its lines cut out of whatever reads bring, each answered at most
once and in order, and one piece of state that nothing but a handshake changes. -/

namespace DeepDiffForge.Mcp
open Text Json Markers Reads DeepDiffForge.Daemon

def grown (cap : Nat) (line : List UInt8) (excess : Bool) (chunk : List UInt8) :
    Bool × List UInt8 :=
  if excess then (true, line)
  else if cap < line.length + chunk.length then (true, [])
  else (false, line ++ chunk)

/-- Read one line of at most `cap` bytes onto `line`; an over-long one is drained and reported. -/
def readLine (cap : Nat) (reader : Reader UInt8) (line : List UInt8) (excess : Bool) :
    Option (Except Unit (List UInt8)) × Reader UInt8 :=
  let available := reader.available
  if available = [] then
    (if line = [] ∧ excess = false then none else if excess then some (.error ()) else some (.ok line),
      reader)
  else
    let found := available.findIdx? (· = 0x0A)
    let chunk := found.elim available (available.take ·)
    let done := found.elim available.length (· + 1)
    let held := grown cap line excess chunk
    let rest := reader.consume done
    if found.isSome then (some (if held.1 then .error () else .ok held.2), rest)
    else readLine cap rest held.2 held.1
termination_by reader.items.length
decreasing_by
  rename_i present _
  obtain ⟨positive, within⟩ := found_within (0x0A : UInt8) reader.available present
  exact reader.length_consume _ positive within

theorem grown_excess (cap : Nat) (line : List UInt8) (excess : Bool) (chunk : List UInt8) :
    (grown cap line excess chunk).1 = true ↔ excess = true ∨ cap < (line ++ chunk).length := by
  rw [grown, List.length_append]
  split_ifs with excess' past
  · simp [excess']
  · simp [past]
  · simp [excess', past]

theorem grown_line (cap : Nat) (line : List UInt8) (excess : Bool) (chunk : List UInt8)
    (within : (grown cap line excess chunk).1 = false) :
    (grown cap line excess chunk).2 = line ++ chunk := by
  unfold grown at within ⊢
  split_ifs at within ⊢
  rfl

theorem length_grown (cap : Nat) (line : List UInt8) (excess : Bool) (chunk : List UInt8)
    (within : (grown cap line excess chunk).1 = false) :
    (grown cap line excess chunk).2.length ≤ cap := by
  have fits := (grown_excess cap line excess chunk).not.1 (by simp [within])
  rw [grown_line _ _ _ _ within]
  exact Nat.not_lt.1 fun past => fits (.inr past)

/-- What a line is reported as once it is read, `excess` saying it was over the cap before. -/
def reported (cap : Nat) (line : List UInt8) (excess : Bool) : Except Unit (List UInt8) :=
  if excess = true ∨ cap < line.length then .error () else .ok line

theorem reported_held (cap : Nat) (line : List UInt8) (excess : Bool)
    (short : excess = false → line.length ≤ cap) :
    reported cap line excess = if excess then .error () else .ok line := by
  cases excess with
  | true => rw [reported, if_pos (.inl rfl), if_pos rfl]
  | false => simp [reported, short rfl]

theorem reported_grown (cap : Nat) (line : List UInt8) (excess : Bool) (chunk more : List UInt8) :
    reported cap ((grown cap line excess chunk).2 ++ more) (grown cap line excess chunk).1 =
      reported cap (line ++ (chunk ++ more)) excess := by
  have past := grown_excess cap line excess chunk
  cases held : (grown cap line excess chunk).1 with
  | true =>
    have excess' : excess = true ∨ cap < (line ++ (chunk ++ more)).length := by
      refine (past.1 held).imp id fun above => ?_
      rw [← List.append_assoc, List.length_append]
      omega
    rw [reported, if_pos (.inl rfl), reported, if_pos excess']
  | false =>
    have absent : excess = false := by
      rw [held] at past
      cases excess with
      | false => rfl
      | true => exact absurd (past.2 (.inl rfl)) Bool.false_ne_true
    rw [grown_line _ _ _ _ held, List.append_assoc, absent]

/-- However the stream is cut, a line is read whole or drained, and reported once. -/
theorem readLine_eq (cap : Nat) (reader : Reader UInt8) (line : List UInt8) (excess : Bool)
    (short : excess = false → line.length ≤ cap) :
    (readLine cap reader line excess).1 =
        (if reader.items = [] ∧ line = [] ∧ excess = false then none
        else some (reported cap (line ++ reader.items.takeWhile (· ≠ 0x0A)) excess)) ∧
      (readLine cap reader line excess).2.items =
        reader.items.drop (upTo 0x0A reader.items).length := by
  induction size : reader.items.length using Nat.strong_induction_on
    generalizing reader line excess with
  | _ size ih =>
    rw [readLine]
    dsimp only
    by_cases ended : reader.available = []
    · have absent := reader.available_eq_nil.1 ended
      rw [if_pos ended, absent, upTo, List.takeWhile_nil, List.append_nil,
        reported_held cap line _ short]
      refine ⟨?_, rfl⟩
      cases excess <;> simp
    · have present := (reader.available_eq_nil).not.1 ended
      obtain ⟨positive, within⟩ := found_within 0x0A _ ended
      have fewer := reader.length_consume _ positive within
      have left := reader.items_consume _ within
      obtain ⟨rest, whole⟩ := reader.items_available
      have opened : ¬(reader.items = [] ∧ line = [] ∧ excess = false) := fun all => present all.1
      rw [if_neg ended, if_neg opened]
      cases found : reader.available.findIdx? (· = 0x0A) with
      | some place =>
        have inside := (List.findIdx?_eq_some_iff_findIdx_eq.1 found).1
        rw [found] at left
        have ends := upTo_found 0x0A _ place found rest
        have text := takeWhile_found 0x0A _ place found rest
        rw [← whole] at ends text
        have length : (reader.available.take (place + 1)).length = place + 1 := by
          rw [List.length_take]
          omega
        have held := reported_grown cap line excess (reader.available.take place) []
        rw [List.append_nil, List.append_nil, reported_held _ _ _ (length_grown _ _ _ _)] at held
        rw [text, ends, length, if_pos (Option.isSome_some : (some place).isSome = true), ← held]
        exact ⟨rfl, left⟩
      | none =>
        rw [found] at left fewer
        have ends := upTo_absent 0x0A _ found rest
        have text := takeWhile_absent 0x0A _ found rest
        rw [← whole] at ends text
        rw [if_neg (by simp : ¬(none : Option Nat).isSome = true)]
        obtain ⟨line', left'⟩ := ih _ (size ▸ fewer) _ _ _
          (length_grown cap line excess reader.available) rfl
        have later : (reader.consume reader.available.length).items = rest := by
          refine left.trans ?_
          rw [whole]
          exact List.drop_left
        have more : ¬((grown cap line excess reader.available).2 = [] ∧
            (grown cap line excess reader.available).1 = false) := by
          rintro ⟨empty, within⟩
          rw [grown_line _ _ _ _ within] at empty
          exact ended (List.append_eq_nil_iff.1 empty).2
        rw [if_neg (more ∘ And.right), reported_grown] at line'
        dsimp only [Option.elim_none] at line' left' ⊢
        rw [later] at line'
        rw [later] at left'
        rw [line', left', text, ends, List.length_append, whole, ← List.drop_drop, List.drop_left]
        exact ⟨rfl, rfl⟩

theorem readLine_first (cap : Nat) (reader : Reader UInt8) :
    (readLine cap reader [] false).1 =
        (if reader.items = [] then none
        else some (reported cap (reader.items.takeWhile (· ≠ 0x0A)) false)) ∧
      (readLine cap reader [] false).2.items =
        reader.items.drop (upTo 0x0A reader.items).length := by
  obtain ⟨line, left⟩ := readLine_eq cap reader [] false fun _ => Nat.zero_le cap
  refine ⟨?_, left⟩
  rw [line]
  simp

theorem readLine_fewer (cap : Nat) (reader rest : Reader UInt8)
    (line : Except Unit (List UInt8)) (read : readLine cap reader [] false = (some line, rest)) :
    rest.items.length < reader.items.length := by
  obtain ⟨first, left⟩ := readLine_first cap reader
  rw [read] at first left
  split_ifs at first with ended
  have more := List.length_pos_iff.2 ((upTo_eq_nil 0x0A reader.items).not.2 ended)
  have present := List.length_pos_iff.2 ended
  rw [left, List.length_drop]
  omega

def emitted (response : Value) : Str := lineSafe response.write

def tooLong (cap : Nat) : Value :=
  error .null invalidRequest ("message longer than ".toList ++ decimal cap ++ " bytes".toList) none

def answerLine (host : Host) (cap call : Nat) (server : Server) :
    Except Unit (List UInt8) → Option Value × Server
  | .ok bytes =>
      match Utf8.decode bytes with
      | some text =>
          if text.all Patch.whitespace then (none, server) else server.handleLine host call text
      | none => (some (error .null parseError "a message must be UTF-8".toList none), server)
  | .error () => (some (tooLong cap), server)

/-- What the server writes until its input ends; `call` lines are read before. -/
def serveServer (host : Host) (cap call : Nat) (server : Server) (reader : Reader UInt8) : Str :=
  match _ : readLine cap reader [] false with
  | (none, _) => []
  | (some line, rest) =>
      let (response, server) := answerLine host cap call server line
      unlines (response.toList.map emitted) ++ serveServer host cap (call + 1) server rest
termination_by reader.items.length
decreasing_by exact readLine_fewer cap reader rest line ‹_›

def streamLines (bytes : List UInt8) : List (List UInt8) := (pieces 0x0A bytes).map (bare 0x0A)

/-- One input line, the state it is met in and left in, and its answer. -/
structure Exchange where
  line : List UInt8
  before : Server
  answer : Option Value
  after : Server

def exchanges (host : Host) (cap : Nat) : Nat → Server → List (List UInt8) → List Exchange
  | _, _, [] => []
  | call, server, line :: rest =>
      let answered := answerLine host cap call server (reported cap line false)
      { line, before := server, answer := answered.1, after := answered.2 } ::
        exchanges host cap (call + 1) answered.2 rest

def replies (run : List Exchange) : List Str := run.flatMap (·.answer.toList.map emitted)

theorem serveServer_eq (host : Host) (cap call : Nat) (server : Server) (reader : Reader UInt8) :
    serveServer host cap call server reader =
      unlines (replies (exchanges host cap call server (streamLines reader.items))) := by
  induction size : reader.items.length using Nat.strong_induction_on
    generalizing call server reader with
  | _ size ih =>
    obtain ⟨first, left⟩ := readLine_first cap reader
    rw [serveServer]
    split
    · rename_i rest read
      rw [read] at first
      split_ifs at first with ended
      rw [ended]
      rfl
    · rename_i line rest read
      have fewer := readLine_fewer cap reader rest line read
      rw [read] at first left
      split_ifs at first with ended
      obtain rfl := Option.some.inj first
      have lines : streamLines reader.items = reader.items.takeWhile (· ≠ 0x0A) ::
          streamLines rest.items := by
        rw [streamLines, pieces_upTo 0x0A _ ended, List.map_cons, bare_upTo, left, streamLines]
      rw [lines, exchanges]
      cases answered : answerLine host cap call server
        (reported cap (reader.items.takeWhile (· ≠ 0x0A)) false) with
      | mk response after =>
        dsimp only
        rw [ih _ (size ▸ fewer) _ _ _ rfl]
        simp [replies, unlines]

def ReadsObject (host : Host) (cap : Nat) (line : List UInt8) (object : List (Str × Value)) :
    Prop :=
  line.length ≤ cap ∧ ∃ text, Utf8.decode line = some text ∧ host.parse text = .ok (.object object)

/-- A JSON-RPC 2.0 request: its marker, its method, and an id that is a string or an integer. -/
structure IsRequest (object : List (Str × Value)) (id : Value) (method : Str) : Prop where
  marked : lookup object "jsonrpc".toList = some (.string "2.0".toList)
  named : lookup object "method".toList = some (.string method)
  held : lookup object "id".toList = some id
  valid : validId id = true

/-- A line that is a handshake: an `initialize` request whose params are an object or absent. -/
def Initializes (host : Host) (cap : Nat) (line : List UInt8) : Prop :=
  ∃ object id, ReadsObject host cap line object ∧ IsRequest object id "initialize".toList ∧
    ∀ params ∈ lookup object "params".toList, params.asObject.isSome

structure Exchange.InStep (host : Host) (cap : Nat) (exchange : Exchange) : Prop where
  oversized : cap < exchange.line.length →
    exchange.answer = some (tooLong cap) ∧ exchange.after = exchange.before
  request : ∀ object id method, ReadsObject host cap exchange.line object →
    IsRequest object id method → ∃ response, exchange.answer = some response ∧ Responds id response
  silent : ∀ object, ReadsObject host cap exchange.line object →
    lookup object "id".toList = none → exchange.answer = none
  answered : ∀ response ∈ exchange.answer,
    (∃ id, Responds id response) ∧ LineSafe (emitted response)
  settled : exchange.after = exchange.before ∨ Initializes host cap exchange.line

theorem asText_member (members : List (Str × Value)) (name text : Str)
    (read : (lookup members name).bind Value.asText = some text) :
    lookup members name = some (.string text) := by
  obtain ⟨value, found, written⟩ := Option.bind_eq_some_iff.1 read
  cases value <;> cases written
  exact found

theorem responds_error (id : Value) (code : Int) (message : Str) (data : Option Value) :
    Responds id (error id code message data) :=
  ⟨_, rfl, rfl, rfl, by
    constructor
    · intro absent
      cases absent
    · intro absent
      cases absent⟩

theorem responds_success (id result : Value) : Responds id (success id result) :=
  ⟨_, rfl, rfl, rfl, iff_of_true rfl rfl⟩

theorem eraOf_rejects (params : List (Str × Value)) (legacy : Option Str) (reject : Value → Value)
    (refused : eraOf params legacy = .error reject) (id : Value) : Responds id (reject id) := by
  unfold eraOf at refused
  dsimp only at refused
  split at refused
  · split_ifs at refused
    · obtain rfl := Except.error.inj refused
      exact responds_error ..
    · obtain rfl := Except.error.inj refused
      exact responds_error ..
  · split at refused
    · cases refused
    · obtain rfl := Except.error.inj refused
      exact responds_error ..

theorem request_responds (host : Host) (call : Nat) (server : Server) (id : Value) (method : Str)
    (params : List (Str × Value)) :
    Responds id (server.request host call id method params).1 := by
  unfold Server.request
  split_ifs with handshake
  · exact responds_success ..
  · cases served : eraOf params server.legacy with
    | error reject => exact eraOf_rejects params _ reject served id
    | ok era =>
      dsimp only
      cases methodResult host call era method params with
      | error refusal => exact responds_error ..
      | ok result => exact responds_success ..

/-- Only a handshake changes what the server holds. -/
theorem request_settled (host : Host) (call : Nat) (server : Server) (id : Value) (method : Str)
    (params : List (Str × Value)) (other : method ≠ "initialize".toList) :
    (server.request host call id method params).2 = server := by
  rw [Server.request, if_neg other]
  cases eraOf params server.legacy with
  | error reject => rfl
  | ok era =>
    dsimp only
    cases methodResult host call era method params <;> rfl

theorem handleObject_request (host : Host) (call : Nat) (server : Server)
    (object : List (Str × Value)) (id : Value) (method : Str)
    (request : IsRequest object id method) :
    ∃ response, (server.handleObject host call object).1 = some response ∧
      Responds id response := by
  obtain ⟨marked, named, held, valid⟩ := request
  have marker : (lookup object "jsonrpc".toList).bind Value.asText = some "2.0".toList := by
    rw [marked]
    rfl
  have name : (lookup object "method".toList).bind Value.asText = some method := by
    rw [named]
    rfl
  have kept : (lookup object "id".toList).filter validId = some id := by
    rw [held, Option.filter_some_pos valid]
  unfold Server.handleObject
  dsimp only
  rw [if_neg (not_not.2 marker), kept, name]
  dsimp only
  cases ((lookup object "params".toList).getD (.object [])).asObject with
  | none => exact ⟨_, rfl, responds_error ..⟩
  | some params => exact ⟨_, rfl, request_responds ..⟩

theorem handleObject_silent (host : Host) (call : Nat) (server : Server)
    (object : List (Str × Value)) (absent : lookup object "id".toList = none) :
    (server.handleObject host call object).1 = none := by
  unfold Server.handleObject
  rw [absent]
  dsimp only
  split_ifs
  · rfl
  · simp

theorem handleObject_answered (host : Host) (call : Nat) (server : Server)
    (object : List (Str × Value)) (response : Value)
    (answered : (server.handleObject host call object).1 = some response) :
    ∃ id, Responds id response := by
  unfold Server.handleObject at answered
  dsimp only at answered
  split_ifs at answered with marked
  · obtain ⟨id, -, rfl⟩ := Option.map_eq_some_iff.1 answered
    exact ⟨_, responds_error ..⟩
  · split at answered
    · split_ifs at answered
      obtain rfl := Option.some.inj answered
      exact ⟨_, responds_error ..⟩
    · obtain rfl := Option.some.inj answered
      exact ⟨_, responds_error ..⟩
    · split at answered
      · obtain rfl := Option.some.inj answered
        exact ⟨_, responds_error ..⟩
      · obtain rfl := Option.some.inj answered
        exact ⟨_, request_responds ..⟩

theorem handleObject_settled (host : Host) (call : Nat) (server : Server)
    (object : List (Str × Value)) :
    (server.handleObject host call object).2 = server ∨
      ∃ id, IsRequest object id "initialize".toList ∧
        ∀ params ∈ lookup object "params".toList, params.asObject.isSome := by
  unfold Server.handleObject
  dsimp only
  split_ifs with marked
  · exact .inl rfl
  · split
    · exact .inl rfl
    · exact .inl rfl
    · rename_i id method kept named
      obtain ⟨held, valid⟩ := Option.filter_eq_some_iff.1 kept
      split
      · exact .inl rfl
      · rename_i params object'
        by_cases handshake : method = "initialize".toList
        · subst handshake
          refine .inr ⟨id, ⟨asText_member _ _ _ (not_not.1 marked), asText_member _ _ _ named, held,
            valid⟩, fun other given => ?_⟩
          rw [Option.mem_def.1 given, Option.getD_some] at object'
          rw [object']
          rfl
        · exact .inl (request_settled host call server id method params handshake)

def exchange (host : Host) (cap call : Nat) (server : Server) (line : List UInt8) : Exchange where
  line := line
  before := server
  answer := (answerLine host cap call server (reported cap line false)).1
  after := (answerLine host cap call server (reported cap line false)).2

theorem reported_within (cap : Nat) (line : List UInt8) (within : line.length ≤ cap) :
    reported cap line false = .ok line :=
  reported_held cap line false fun _ => within

section Exchange
variable (host : Host) (cap call : Nat) (server : Server) (line : List UInt8)

theorem exchange_oversized (past : cap < line.length) :
    (exchange host cap call server line).answer = some (tooLong cap) ∧
      (exchange host cap call server line).after = server := by
  have excess : reported cap line false = .error () := if_pos (.inr past)
  rw [exchange, excess]
  exact ⟨rfl, rfl⟩

theorem exchange_object (blank : ∀ text, text.all Patch.whitespace = true →
      ∃ reason, host.parse text = .error reason)
    (object : List (Str × Value)) (reads : ReadsObject host cap line object) :
    (exchange host cap call server line).answer = (server.handleObject host call object).1 ∧
      (exchange host cap call server line).after = (server.handleObject host call object).2 := by
  obtain ⟨within, text, decoded, parsed⟩ := reads
  have filled : ¬text.all Patch.whitespace = true := by
    intro empty
    obtain ⟨reason, refused⟩ := blank text empty
    rw [parsed] at refused
    cases refused
  have handled : answerLine host cap call server (reported cap line false) =
      server.handleObject host call object := by
    rw [reported_within cap line within, answerLine, decoded]
    dsimp only
    rw [if_neg filled, Server.handleLine, parsed]
    rfl
  rw [exchange, handled]
  exact ⟨rfl, rfl⟩

theorem exchange_cases :
    (∃ object, ReadsObject host cap line object) ∨
      ((exchange host cap call server line).after = server ∧
        ∀ response ∈ (exchange host cap call server line).answer, ∃ id, Responds id response) := by
  have refused (code : Int) (message : Str) : ∀ response ∈ some (error .null code message none),
      ∃ id, Responds id response := by
    rintro response ⟨⟩
    exact ⟨_, responds_error ..⟩
  by_cases past : cap < line.length
  · obtain ⟨answer, after⟩ := exchange_oversized host cap call server line past
    rw [answer, after]
    exact .inr ⟨rfl, refused _ _⟩
  · have within := Nat.not_lt.1 past
    rw [exchange, reported_within cap line within, answerLine]
    cases decoded : Utf8.decode line with
    | none => exact .inr ⟨rfl, refused _ _⟩
    | some text =>
      dsimp only
      split_ifs with empty
      · exact .inr ⟨rfl, nofun⟩
      · cases parsed : host.parse text with
        | error reason =>
          rw [Server.handleLine, parsed]
          exact .inr ⟨rfl, refused _ _⟩
        | ok message =>
          cases message with
          | object members => exact .inl ⟨members, within, text, decoded, parsed⟩
          | null | bool | integer | float | string | array =>
            rw [Server.handleLine, parsed]
            exact .inr ⟨rfl, refused _ _⟩

theorem exchange_inStep (blank : ∀ text, text.all Patch.whitespace = true →
      ∃ reason, host.parse text = .error reason) :
    (exchange host cap call server line).InStep host cap where
  oversized := exchange_oversized host cap call server line
  request object id method reads request := by
    rw [(exchange_object host cap call server line blank object reads).1]
    exact handleObject_request host call server object id method request
  silent object reads absent := by
    rw [(exchange_object host cap call server line blank object reads).1]
    exact handleObject_silent host call server object absent
  answered response given := by
    refine ⟨?_, lineSafe_write response⟩
    rcases exchange_cases host cap call server line with ⟨object, reads⟩ | ⟨-, answered⟩
    · rw [(exchange_object host cap call server line blank object reads).1] at given
      exact handleObject_answered host call server object response given
    · exact answered response given
  settled := by
    rcases exchange_cases host cap call server line with ⟨object, reads⟩ | ⟨same, -⟩
    · rw [(exchange_object host cap call server line blank object reads).2]
      refine (handleObject_settled host call server object).imp id ?_
      rintro ⟨id, request, params⟩
      exact ⟨object, id, reads, request, params⟩
    · exact .inl same

end Exchange

theorem exchanges_lines (host : Host) (cap call : Nat) (server : Server)
    (lines : List (List UInt8)) :
    (exchanges host cap call server lines).map (·.line) = lines := by
  induction lines generalizing call server with
  | nil => rfl
  | cons line lines ih => rw [exchanges, List.map_cons, ih]

theorem exchanges_inStep (host : Host) (cap call : Nat) (server : Server)
    (blank : ∀ text, text.all Patch.whitespace = true → ∃ reason, host.parse text = .error reason)
    (lines : List (List UInt8)) :
    ∀ exchange ∈ exchanges host cap call server lines, exchange.InStep host cap := by
  induction lines generalizing call server with
  | nil => exact fun _ listed => absurd listed List.not_mem_nil
  | cons line lines ih =>
    rw [exchanges, List.forall_mem_cons]
    exact ⟨exchange_inStep host cap call server line blank, ih _ _⟩

/-- Lines that are no handshake leave later ones answered as from the start. -/
theorem exchanges_append (host : Host) (cap call : Nat) (server : Server)
    (blank : ∀ text, text.all Patch.whitespace = true → ∃ reason, host.parse text = .error reason)
    (earlier later : List (List UInt8))
    (plain : ∀ line ∈ earlier, ¬Initializes host cap line) :
    exchanges host cap call server (earlier ++ later) =
      exchanges host cap call server earlier ++
        exchanges host cap (call + earlier.length) server later := by
  induction earlier generalizing call with
  | nil => rfl
  | cons line earlier ih =>
    rw [List.forall_mem_cons] at plain
    have same : (answerLine host cap call server (reported cap line false)).2 = server :=
      (exchange_inStep host cap call server line blank).settled.resolve_right plain.1
    rw [List.cons_append, exchanges, exchanges, same, ih (call + 1) plain.2, List.cons_append,
      List.length_cons, Nat.add_assoc, Nat.add_comm 1]

/-- The server stays in step with its client, however its input is cut. -/
theorem serve_inStep (host : Host) (cap : Nat) (server : Server) (reader : Reader UInt8)
    (blank : ∀ text, text.all Patch.whitespace = true →
      ∃ reason, host.parse text = .error reason) :
    splitLines (serveServer host cap 0 server reader) =
        replies (exchanges host cap 0 server (streamLines reader.items)) ∧
      (exchanges host cap 0 server (streamLines reader.items)).map (·.line) =
        streamLines reader.items ∧
      (∀ exchange ∈ exchanges host cap 0 server (streamLines reader.items),
        exchange.InStep host cap) ∧
      ∀ earlier later, streamLines reader.items = earlier ++ later →
        (∀ line ∈ earlier, ¬Initializes host cap line) →
        exchanges host cap 0 server (streamLines reader.items) =
          exchanges host cap 0 server earlier ++
            exchanges host cap earlier.length server later := by
  have each := exchanges_inStep host cap 0 server blank (streamLines reader.items)
  refine ⟨?_, exchanges_lines .., each, fun earlier later split plain => ?_⟩
  · have whole : ∀ line ∈ replies (exchanges host cap 0 server (streamLines reader.items)),
        '\n' ∉ line := by
      intro line written feed
      obtain ⟨exchange, held, written⟩ := List.mem_flatMap.1 written
      obtain ⟨response, given, rfl⟩ := List.mem_map.1 written
      have safe := ((each exchange held).answered response (Option.mem_toList.1 given)).2
      exact absurd (safe '\n' feed).1 (by decide)
    have lines := splitLines_unlines _ [] whole
    rw [List.append_nil] at lines
    rw [serveServer_eq, lines]
    exact List.append_nil _
  · rw [split, exchanges_append host cap 0 server blank earlier later plain, Nat.zero_add]

/-- A reader of JSON that knows one handshake and takes nothing else. -/
def handshakeOnly (text : Str) : Except Str Value :=
  if text = "\x7b\"id\":7,\"jsonrpc\":\"2.0\",\"method\":\"initialize\"\x7d".toList then
    .ok (.object [("id".toList, .integer 7), ("jsonrpc".toList, .string "2.0".toList),
      ("method".toList, .string "initialize".toList)])
  else .error "expected value at line 1 column 1".toList

def smallHost : Host where
  parse := handshakeOnly
  tools := []
  callTool := fun _ _ => .error (invalidParams, "unknown tool".toList)
  instructions := "read only".toList
  version := "0.1.0".toList

/-- A handshake in two reads, then a malformed tail without a line feed. -/
def cutStream : Reader UInt8 where
  chunks := [Utf8.encode "\x7b\"id\":7,\"jsonrpc\":\"2.0\",\"met".toList,
    Utf8.encode "hod\":\"initialize\"\x7d\nx".toList]
  filled := by decide

theorem serve_inStep_cut :
    (splitLines (serveServer smallHost 64 0 {} cutStream) =
        replies (exchanges smallHost 64 0 {} (streamLines cutStream.items)) ∧
      (exchanges smallHost 64 0 {} (streamLines cutStream.items)).map (·.line) =
        streamLines cutStream.items) ∧
      (∀ exchange ∈ exchanges smallHost 64 0 {} (streamLines cutStream.items),
        exchange.InStep smallHost 64) := by
  have inStep := serve_inStep smallHost 64 {} cutStream <| by
    intro text blank
    refine ⟨"expected value at line 1 column 1".toList, if_neg ?_⟩
    rintro rfl
    exact absurd blank (by decide)
  exact ⟨⟨inStep.1, inStep.2.1⟩, inStep.2.2.1⟩

end DeepDiffForge.Mcp
