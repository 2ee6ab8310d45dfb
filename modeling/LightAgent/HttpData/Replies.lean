import LightAgent.HttpData.Rounds

/-!
# What a request is answered with

The block of `handleRead` never looks at the output that is pending. Whatever was
buffered, sent or refused before, it makes the same `Reply`: it leaves `outBuffer_`
alone, appends to it, assigns it (`/hello`), or writes an error page past it.
-/
namespace LightAgent

open Library

/-- The connection with other output pending, other bytes sent and another socket. -/
def Conn.withOutput (s : Conn) (outBuffer sent : Bytes) (writes : List WriteResult) : Conn where
  http := { s.http with outBuffer_ := outBuffer }
  wire := { s.wire with sent := sent, writes := writes }
  epoll := s.epoll

/-- The pages `handleError` is called for. -/
def errorPages : List (Nat × Bytes) :=
  [(400, bytes "Bad Request"), (400, bytes "Bad Request: Lack of argument (Content-length)"),
    (404, bytes "Not Found!")]

def errorPage (err_num : Nat) (msg : Bytes) : Bytes :=
  errorHeader err_num (bytes " " ++ msg) ++ errorBody err_num (bytes " " ++ msg)

theorem handleError_http (s : Conn) (err_num : Nat) (msg : Bytes) :
    (handleError s err_num msg).http = s.http := rfl

/-- The whole page is sent where the socket does not refuse. -/
theorem handleError_unblocked {s : Conn} (free : Unblocked s.wire.writes) (err_num : Nat)
    (msg : Bytes) : (handleError s err_num msg).wire.sent = s.wire.sent ++ errorPage err_num msg ∧
      Unblocked (handleError s err_num msg).wire.writes := by
  obtain ⟨rest, still, header⟩ := writenRaw_unblocked (errorHeader err_num (bytes " " ++ msg)) free
  obtain ⟨rest', still', body⟩ := writenRaw_unblocked (errorBody err_num (bytes " " ++ msg)) still
  unfold handleError Conn.writeRaw errorPage
  dsimp only
  rw [header]
  dsimp only
  rw [body]
  exact ⟨List.append_assoc _ _ _, still'⟩

/-- What handling a request does to the output. -/
inductive Reply where
  | quiet
  | appends (response : Bytes)
  | hello
  | page (err_num : Nat) (msg : Bytes)

/-- The whole of the response. -/
def Reply.text : Reply → Bytes
  | .quiet => []
  | .appends response => response
  | .hello => helloResponse
  | .page err_num msg => errorPage err_num msg

/-- The two writes of an error page against this socket. -/
def pageWrites (err_num : Nat) (msg : Bytes) (writes : List WriteResult) : WriteLoop × WriteLoop :=
  let header := writenRaw (errorHeader err_num (bytes " " ++ msg)) writes
  (header, writenRaw (errorBody err_num (bytes " " ++ msg)) header.rest)

/-- What has become, at `t`, of the output that was pending and sent before the reply. -/
inductive Replies (out sent : Bytes) (writes : List WriteResult) (t : Conn) : Reply → Prop
  | quiet : t.http.outBuffer_ = out → t.wire.sent = sent → Replies out sent writes t .quiet
  | appends (response : Bytes) : t.http.outBuffer_ = out ++ response → t.wire.sent = sent →
      Replies out sent writes t (.appends response)
  | hello : t.http.outBuffer_ = helloResponse → t.wire.sent = sent → Replies out sent writes t .hello
  | page (err_num : Nat) (msg : Bytes) : (err_num, msg) ∈ errorPages →
      t.http.outBuffer_ = out ∨ t.http.outBuffer_ = [] →
      t.wire.sent = sent ++ (pageWrites err_num msg writes).1.accepted ++
        (pageWrites err_num msg writes).2.accepted →
      Replies out sent writes t (.page err_num msg)

/-- Only the output counts. -/
theorem Replies.congr {out sent : Bytes} {writes : List WriteResult} {t t' : Conn} {reply : Reply}
    (replies : Replies out sent writes t reply)
    (outBuffer : t'.http.outBuffer_ = t.http.outBuffer_) (same : t'.wire.sent = t.wire.sent) :
    Replies out sent writes t' reply := by
  cases replies with
  | quiet kept unsent => exact .quiet (outBuffer.trans kept) (same.trans unsent)
  | appends response kept unsent => exact .appends response (outBuffer.trans kept) (same.trans unsent)
  | hello assigned unsent => exact .hello (outBuffer.trans assigned) (same.trans unsent)
  | page err_num msg member kept written =>
    exact .page err_num msg member (kept.imp outBuffer.trans outBuffer.trans) (same.trans written)

/-! ### Parsing -/

/-- A stage that does not look at the output: it goes on or waits with the output as it
was, or rejects the request with a page. -/
inductive Blind (stage : Conn → Except Conn Conn) (s : Conn) : Prop
  | goesOn (s' : Conn) : (∀ out sent writes, stage (s.withOutput out sent writes) =
      .ok (s'.withOutput out sent writes)) → Blind stage s
  | waits (s' : Conn) : (∀ out sent writes, stage (s.withOutput out sent writes) =
      .error (s'.withOutput out sent writes)) → Blind stage s
  | rejects (s' : Conn) (msg : Bytes) : (400, msg) ∈ errorPages → s'.http.error_ = true →
      (∀ out sent writes, stage (s.withOutput out sent writes) =
        .error (handleError (s'.withOutput out sent writes) 400 msg)) → Blind stage s

theorem Blind.bind {first next : Conn → Except Conn Conn} {s : Conn} (before : Blind first s)
    (after : ∀ s', Blind next s') : Blind (fun s => (first s).bind next) s := by
  cases before with
  | waits s' eq => exact .waits s' fun out sent writes => by rw [eq]; rfl
  | rejects s' msg member failed eq =>
    exact .rejects s' msg member failed fun out sent writes => by rw [eq]; rfl
  -- The next stage starts from a state that is blind as well.
  | goesOn s' eq =>
    have run (out sent writes) : (first (s.withOutput out sent writes)).bind next =
        next (s'.withOutput out sent writes) := by rw [eq]; rfl
    cases after s' with
    | goesOn s'' eq' => exact .goesOn s'' fun _ _ _ => (run _ _ _).trans (eq' _ _ _)
    | waits s'' eq' => exact .waits s'' fun _ _ _ => (run _ _ _).trans (eq' _ _ _)
    | rejects s'' msg member failed eq' =>
      exact .rejects s'' msg member failed fun _ _ _ => (run _ _ _).trans (eq' _ _ _)

theorem readStage_blind (s : Conn) : Blind readStage s := by
  have read (out sent : Bytes) (writes : List WriteResult) :
      readn (s.withOutput out sent writes).http.inBuffer_
        (s.withOutput out sent writes).wire.reads = readn s.http.inBuffer_ s.wire.reads := rfl
  unfold readStage
  generalize readn s.http.inBuffer_ s.wire.reads = result at read
  by_cases gone : s.http.connectionState_ = .disconnecting
  · refine .waits (readInto s [] result.rest s.http.connectionState_) fun out sent writes => ?_
    rw [read]
    exact if_pos gone
  -- The tests of the stage, in their order.
  · by_cases failed : result.read_num < 0
    · refine .rejects ((readInto s result.inBuffer result.rest s.http.connectionState_).setHttp
        { (readInto s result.inBuffer result.rest s.http.connectionState_).http with
          error_ := true }) (bytes "Bad Request") (by simp [errorPages]) rfl
        fun out sent writes => ?_
      rw [read]
      exact (if_neg gone).trans (if_pos failed)
    · by_cases zero : result.zero = true
      · by_cases nothing : result.read_num = 0
        · refine .waits (readInto s result.inBuffer result.rest .disconnecting)
            fun out sent writes => ?_
          rw [read]
          exact (if_neg gone).trans ((if_neg failed).trans ((if_pos zero).trans (if_pos nothing)))
        · refine .goesOn (readInto s result.inBuffer result.rest .disconnecting)
            fun out sent writes => ?_
          rw [read]
          exact (if_neg gone).trans ((if_neg failed).trans ((if_pos zero).trans (if_neg nothing)))
      · refine .goesOn (readInto s result.inBuffer result.rest s.http.connectionState_)
          fun out sent writes => ?_
        rw [read]
        exact (if_neg gone).trans ((if_neg failed).trans (if_neg zero))

theorem parseUriStage_blind (s : Conn) : Blind parseUriStage s := by
  by_cases state : s.http.state_ = .parseUri
  · have same (out sent : Bytes) (writes : List WriteResult) := HttpData.parseURI_same
      (h := s.http) (k := (s.withOutput out sent writes).http) rfl rfl rfl rfl rfl
    let h : HttpData := { s.http with
      inBuffer_ := s.http.parseURI.1.inBuffer_
      method_ := s.http.parseURI.1.method_
      HTTPVersion_ := s.http.parseURI.1.HTTPVersion_
      fileName_ := s.http.parseURI.1.fileName_ }
    cases flag : s.http.parseURI.2 with
    | again =>
      refine .waits (s.setHttp h) fun out sent writes => (if_pos state).trans ?_
      rw [same, flag]
      rfl
    | error =>
      refine .rejects (s.setHttp { h with inBuffer_ := [], error_ := true })
        (bytes "Bad Request") (by simp [errorPages]) rfl fun out sent writes => (if_pos state).trans ?_
      rw [same, flag]
      rfl
    | success =>
      refine .goesOn (s.setHttp { h with state_ := .parseHeaders })
        fun out sent writes => (if_pos state).trans ?_
      rw [same, flag]
      rfl
  · exact .goesOn s fun _ _ _ => if_neg state

theorem parseHeadersStage_blind (w : World) (s : Conn) : Blind (parseHeadersStage w) s := by
  by_cases state : s.http.state_ = .parseHeaders
  -- The scan reads `hState_`, the buffer and the headers, and none of the output.
  · have same (out sent : Bytes) (writes : List WriteResult) := HttpData.parseHeaders_same w.outside
      (h := s.http) (k := (s.withOutput out sent writes).http) rfl rfl rfl
    let h : HttpData := { s.http with
      hState_ := (s.http.parseHeaders w.outside).1.hState_
      headers_ := (s.http.parseHeaders w.outside).1.headers_
      inBuffer_ := (s.http.parseHeaders w.outside).1.inBuffer_ }
    cases flag : (s.http.parseHeaders w.outside).2 with
    | again =>
      refine .waits (s.setHttp h) fun out sent writes => (if_pos state).trans ?_
      rw [same, flag]
      rfl
    | thrown =>
      refine .waits (s.setHttp h) fun out sent writes => (if_pos state).trans ?_
      rw [same, flag]
      rfl
    | error =>
      refine .rejects (s.setHttp { h with error_ := true })
        (bytes "Bad Request") (by simp [errorPages]) rfl fun out sent writes => (if_pos state).trans ?_
      rw [same, flag]
      rfl
    | success =>
      by_cases post : s.http.method_ = .post
      · refine .goesOn (s.setHttp { h with state_ := .recvBody })
          fun out sent writes => (if_pos state).trans ?_
        rw [same, flag]
        exact if_pos post
      · refine .goesOn (s.setHttp { h with state_ := .analysis })
          fun out sent writes => (if_pos state).trans ?_
        rw [same, flag]
        exact if_neg post
  · exact .goesOn s fun _ _ _ => if_neg state

theorem recvBodyStage_blind (s : Conn) : Blind recvBodyStage s := by
  by_cases state : s.http.state_ = .recvBody
  · have same (out sent : Bytes) (writes : List WriteResult) :
        (s.withOutput out sent writes).http.getContentLength = s.http.getContentLength := rfl
    -- Without a length, with too few bytes, or complete.
    cases declared : s.http.getContentLength with
    | none =>
      refine .rejects (s.setHttp { s.http with error_ := true })
        (bytes "Bad Request: Lack of argument (Content-length)") (by simp [errorPages]) rfl
        fun out sent writes => (if_pos state).trans ?_
      rw [same, declared]
      rfl
    | some content_length =>
      by_cases short : toInt s.http.inBuffer_.length < content_length
      · refine .waits s fun out sent writes => (if_pos state).trans ?_
        rw [same, declared]
        exact if_pos short
      · refine .goesOn (s.setHttp { s.http with state_ := .analysis })
          fun out sent writes => (if_pos state).trans ?_
        rw [same, declared]
        exact if_neg short
  · exact .goesOn s fun _ _ _ => if_neg state

theorem toAnalysis_blind (w : World) (s : Conn) : Blind (toAnalysis w) s :=
  (readStage_blind s).bind fun s => (parseUriStage_blind s).bind fun s =>
    (parseHeadersStage_blind w s).bind fun s => recvBodyStage_blind s

/-! ### Answering -/

/-- An answer that does not look at the output; with a page it fails. -/
def BlindAnswer (answer : Conn → Conn × AnalysisState) (s : Conn) : Prop :=
  ∃ reply, ∀ out sent writes,
    Replies out sent writes (answer (s.withOutput out sent writes)).1 reply ∧
    ∀ err_num msg, reply = .page err_num msg →
      (answer (s.withOutput out sent writes)).2 = .error

theorem answerApiRequest_blind (view : LightAgentGateway.View) (s : Conn)
    (contentLength : Option Nat) (body : Bytes) :
    BlindAnswer (answerApiRequest view · contentLength body) s := by
  unfold BlindAnswer answerApiRequest
  dsimp only [Conn.withOutput]
  cases LightAgentGateway.handle view
      ⟨toGatewayMethod s.http.method_, bytes "/" ++ s.http.fileName_, body⟩ with
  | none => exact ⟨.quiet, fun _ _ _ => ⟨.quiet rfl rfl, nofun⟩⟩
  | some response =>
    refine ⟨.appends (apiHeader response s.http.isKeepAliveRequested ++
      (if s.http.method_ ≠ .head then response.body else [])), fun out sent writes => ?_⟩
    exact ⟨.appends _ (List.append_assoc out _ _) rfl, nofun⟩

/-- The reply of one answer is that of another that does the same. -/
theorem BlindAnswer.congr {answer answer' : Conn → Conn × AnalysisState} {s s' : Conn}
    (blind : BlindAnswer answer' s') (same : ∀ out sent writes,
      answer (s.withOutput out sent writes) = answer' (s'.withOutput out sent writes)) :
    BlindAnswer answer s := by
  obtain ⟨reply, answers⟩ := blind
  exact ⟨reply, fun out sent writes => by rw [same]; exact answers out sent writes⟩

/-- An answer that fails and writes nothing. -/
theorem refuses_blind (s : Conn) : BlindAnswer (·, .error) s :=
  ⟨.quiet, fun _ _ _ => ⟨.quiet rfl rfl, nofun⟩⟩

theorem analysisApiRequest_blind (view : LightAgentGateway.View) (s : Conn) :
    BlindAnswer (analysisApiRequest view) s := by
  by_cases post : s.http.method_ = .post
  · have delimits (out sent : Bytes) (writes : List WriteResult) :
        (s.withOutput out sent writes).http.getContentLength = s.http.getContentLength := rfl
    -- The same tests as in the stage before, made once more.
    cases declared : s.http.getContentLength with
    | none =>
      apply (refuses_blind s).congr
      intro out sent writes
      refine (if_pos post).trans ?_
      rw [delimits, declared]
    | some contentLength =>
      by_cases short : toInt s.http.inBuffer_.length < contentLength
      · apply (refuses_blind s).congr
        intro out sent writes
        refine (if_pos post).trans ?_
        rw [delimits, declared]
        exact if_pos short
      · apply (answerApiRequest_blind view s (some contentLength)
          (s.http.inBuffer_.take contentLength)).congr
        intro out sent writes
        refine (if_pos post).trans ?_
        rw [delimits, declared]
        exact if_neg short
  · apply (answerApiRequest_blind view s none []).congr
    intro out sent writes
    exact if_neg post

theorem analysisStaticRequest_blind (fs : Bytes → Option FileStat) (s : Conn) :
    BlindAnswer (analysisStaticRequest fs) s := by
  have page : (404, bytes "Not Found!") ∈ errorPages := by simp [errorPages]
  unfold BlindAnswer analysisStaticRequest
  dsimp only [Conn.withOutput]
  by_cases hello : s.http.fileName_ = bytes "hello"
  · simp only [if_pos hello]
    exact ⟨.hello, fun _ _ _ => ⟨.hello rfl rfl, nofun⟩⟩
  · simp only [if_neg hello]
    by_cases icon : s.http.fileName_ = bytes "favicon.ico"
    · simp only [if_pos icon]
      refine ⟨.appends (faviconHeader s.http.isKeepAliveRequested ++ favicon),
        fun out sent writes => ⟨.appends _ (List.append_assoc out _ _) rfl, nofun⟩⟩
    · simp only [if_neg icon]
      cases fs (cStr s.http.fileName_) with
      | none =>
        exact ⟨.page 404 _, fun _ _ _ => ⟨.page _ _ page (.inl rfl) rfl, fun _ _ _ => rfl⟩⟩
      | some sbuf =>
        dsimp only
        by_cases head : s.http.method_ = .head
        · simp only [if_pos head]
          exact ⟨.appends (fileHeader s.http.isKeepAliveRequested s.http.fileName_ sbuf.st_size),
            fun _ _ _ => ⟨.appends _ rfl rfl, nofun⟩⟩
        · simp only [if_neg head]
          -- Behind the header the body is mapped; where that fails all output is cleared.
          by_cases closed : (!sbuf.opened) = true
          · simp only [if_pos closed]
            exact ⟨.page 404 _, fun _ _ _ => ⟨.page _ _ page (.inr rfl) rfl, fun _ _ _ => rfl⟩⟩
          · simp only [if_neg closed]
            cases sbuf.mapped with
            | none =>
              exact ⟨.page 404 _, fun _ _ _ => ⟨.page _ _ page (.inr rfl) rfl, fun _ _ _ => rfl⟩⟩
            | some src =>
              exact ⟨.appends (fileHeader s.http.isKeepAliveRequested s.http.fileName_ sbuf.st_size
                  ++ src), fun out _ _ => ⟨.appends _ (List.append_assoc out _ _) rfl, nofun⟩⟩

theorem analysisRequest_blind (w : World) (s : Conn) : BlindAnswer (analysisRequest w) s := by
  let counted : Conn := { s with wire := { s.wire with served := s.wire.served + 1 } }
  by_cases api : (bytes "api/").isPrefixOf s.http.fileName_ = true
  · apply (analysisApiRequest_blind (w.gateway s.wire.served) counted).congr
    intro out sent writes
    exact if_pos api
  · by_cases post : s.http.method_ = .post
    · apply (refuses_blind counted).congr
      intro out sent writes
      exact analysisRequest_post w api post
    · apply (analysisStaticRequest_blind (w.fs s.wire.served) counted).congr
      intro out sent writes
      exact analysisRequest_static w api post

/-! ### The block -/

/-- What the block does with the output that is pending. -/
theorem readBlock_replies (w : World) (s : Conn) : ∃ reply, ∀ out sent writes,
    Replies out sent writes (readBlock w (s.withOutput out sent writes)) reply ∧
    ∀ err_num msg, reply = .page err_num msg →
      (readBlock w (s.withOutput out sent writes)).http.error_ = true := by
  unfold readBlock
  -- Which reply it is does not depend on the output, as no stage looks at it.
  cases toAnalysis_blind w s with
  | waits s' eq =>
    refine ⟨.quiet, fun out sent writes => ?_⟩
    rw [eq]
    exact ⟨.quiet rfl rfl, nofun⟩
  | rejects s' msg member failed eq =>
    refine ⟨.page 400 msg, fun out sent writes => ?_⟩
    rw [eq]
    exact ⟨.page 400 msg member (.inl rfl) rfl, fun _ _ _ => failed⟩
  | goesOn s' eq =>
    by_cases ready : s'.http.state_ = .analysis
    · obtain ⟨reply, answers⟩ := analysisRequest_blind w s'
      refine ⟨reply, fun out sent writes => ?_⟩
      have run : endBlock w (toAnalysis w (s.withOutput out sent writes)) =
          analyse w (s'.withOutput out sent writes) := by
        rw [eq]
        exact if_pos ready
      rw [run]
      obtain ⟨replies, failed⟩ := answers out sent writes
      rcases analyse_cases w (s'.withOutput out sent writes) with ⟨success, done⟩ | ⟨_, done⟩
      · rw [done]
        refine ⟨replies.congr rfl rfl, fun err_num msg isPage => ?_⟩
        exact nomatch success.symm.trans (failed err_num msg isPage)
      · rw [done]
        exact ⟨replies.congr rfl rfl, fun _ _ _ => rfl⟩
    · refine ⟨.quiet, fun out sent writes => ?_⟩
      rw [eq]
      have run : endBlock w (.ok (s'.withOutput out sent writes)) = s'.withOutput out sent writes :=
        if_neg ready
      rw [run]
      exact ⟨.quiet rfl rfl, nofun⟩

/-- The complete response of the request the block handles: all it writes and buffers
on a connection that owes nothing and whose socket takes everything. -/
def response (w : World) (s : Conn) : Bytes :=
  let t := readBlock w (s.withOutput [] [] [])
  t.wire.sent ++ t.http.outBuffer_

theorem readBlock_response (w : World) (s : Conn) : ∃ reply, reply.text = response w s ∧
    Replies s.http.outBuffer_ s.wire.sent s.wire.writes (readBlock w s) reply ∧
    ∀ err_num msg, reply = .page err_num msg → (readBlock w s).http.error_ = true := by
  obtain ⟨reply, answers⟩ := readBlock_replies w s
  obtain ⟨replies, failed⟩ := answers s.http.outBuffer_ s.wire.sent s.wire.writes
  refine ⟨reply, ?_, replies, failed⟩
  unfold response
  dsimp only
  -- The response is what the block adds on an empty output.
  cases (answers [] [] []).1 with
  | quiet kept unsent => rw [kept, unsent]; rfl
  | appends response kept unsent => rw [kept, unsent]; rfl
  | hello assigned unsent => rw [assigned, unsent]; rfl
  | page err_num msg _ kept written =>
    have empty : (readBlock w (s.withOutput [] [] [])).http.outBuffer_ = [] := by simpa using kept
    rw [empty, written, List.append_nil]
    rfl

end LightAgent
