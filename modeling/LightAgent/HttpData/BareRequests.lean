import LightAgent.HttpData.ApiDispatch
import LightAgent.HttpData.DocumentRoot
import LightAgent.HttpData.HeaderBlock

/-!
# Requests without header fields

The scan passes over every CR and LF while it is in `H_START`, also over the CR of the blank line
that ends an empty block. It gets to the end of a block only behind a field, so a request without
fields waits, and what comes behind it is read as its header.
-/
namespace LightAgent

open Library

/-! ### What the scan has stored when it comes to the end of a block -/

/-- Behind a line of the block there is a field. -/
def HeaderScan.Fielded (st : HeaderScan) : Prop :=
  st.hState_ = .lf ∨ st.hState_ = .endCr ∨ st.hState_ = .endLf → st.headers_ ≠ .empty

theorem assignSorted_ne_nil (k v : Bytes) (es : List (Bytes × Bytes)) :
    assignSorted k v es ≠ [] := by
  cases es with
  | nil => simp [assignSorted]
  | cons e es =>
    unfold assignSorted
    split
    · simp
    · split <;> simp

theorem assign_ne_empty (m : HeaderMap) (k v : Bytes) : m.assign k v ≠ .empty := by
  intro same
  exact assignSorted_ne_nil k v m.entries (congrArg SortedMap.entries same)

theorem scanByte_fielded {outside : Int → UInt8} {str : Bytes} {i : Nat} {c : UInt8}
    {st st' : HeaderScan} (fielded : st.Fielded)
    (next : scanByte outside str i c st = .ok st') : st'.Fielded := by
  unfold HeaderScan.Fielded at fielded ⊢
  unfold scanByte at next
  cases state : st.hState_ <;> simp only [state] at next fielded
  -- The line is over here: the field has just been assigned.
  case cr =>
    repeat' split at next
    all_goals cases next
    exact fun _ => assign_ne_empty _ _ _
  all_goals
    repeat' split at next
    all_goals cases next
    all_goals simp_all

theorem scanFrom_fielded {outside : Int → UInt8} {str : Bytes} (cs : Bytes) {i : Nat}
    {st st' : HeaderScan} (fielded : st.Fielded)
    (done : scanFrom outside str i cs st = .ok st') : st'.Fielded := by
  induction cs generalizing i st with
  | nil => cases done; exact fielded
  | cons c cs ih =>
    rw [scanFrom] at done
    cases going : st.notFinish with
    | false => rw [going] at done; cases done; exact fielded
    | true =>
      rw [going] at done
      simp only [if_true] at done
      cases next : scanByte outside str i c st with
      | error st₁ => simp [next] at done
      | ok st₁ =>
        rw [next] at done
        exact ih (scanByte_fielded fielded next) done

/-- Where the scan of a connection has come to the end of a line, there is a field. -/
def HttpData.Fielded (h : HttpData) : Prop :=
  h.hState_ = .lf ∨ h.hState_ = .endCr ∨ h.hState_ = .endLf → h.headers_ ≠ .empty

theorem HttpData.fielded_start {h : HttpData} (start : h.hState_ = .start) : h.Fielded := by
  intro later
  simp [start] at later

theorem HttpData.parseHeaders_fielded (outside : Int → UInt8) {h : HttpData}
    (fielded : h.Fielded) : ((h.parseHeaders outside).2 ≠ .error →
      (h.parseHeaders outside).1.Fielded) ∧
      ((h.parseHeaders outside).2 = .success → (h.parseHeaders outside).1.headers_ ≠ .empty) := by
  unfold parseHeaders
  cases scan : scanFrom outside h.inBuffer_ 0 h.inBuffer_ h.beginScan with
  | error exit =>
    cases exit with
    | returns st => simp [endScan]
    -- An exception leaves the members as they were.
    | throws => exact ⟨fun _ => fielded, fun success => by cases success⟩
  | ok st =>
    have begins : h.beginScan.Fielded := fielded
    have kept : st.Fielded := scanFrom_fielded h.inBuffer_ begins scan
    unfold endScan
    dsimp only
    by_cases ended : st.hState_ = .endLf
    · have some : st.headers_ ≠ .empty := kept (.inr (.inr ended))
      rw [if_pos ended]
      repeat' split
      all_goals exact ⟨fun _ _ => some, fun _ => some⟩
    · rw [if_neg ended]
      split
      · exact ⟨fun _ => fielded, fun success => by cases success⟩
      · exact ⟨fun _ => kept, fun success => by cases success⟩

/-! ### Through the stages -/

/-- What has been read of a request holds a field where the header is over. -/
structure HttpData.FieldsRead (h : HttpData) : Prop where
  scan : h.Fielded
  ended : h.state_ = .recvBody ∨ h.state_ = .analysis → h.headers_ ≠ .empty

theorem HttpData.FieldsRead.congr {h k : HttpData} (fields : h.FieldsRead)
    (scan : k.hState_ = h.hState_) (headers : k.headers_ = h.headers_)
    (state : k.state_ = h.state_) : k.FieldsRead := by
  obtain ⟨stored, ended⟩ := fields
  unfold HttpData.Fielded at stored
  rw [← scan, ← headers] at stored
  rw [← state, ← headers] at ended
  exact ⟨stored, ended⟩

theorem HttpData.fieldsRead_headers {h : HttpData} (fielded : h.Fielded)
    (state : h.state_ = .parseUri ∨ h.state_ = .parseHeaders ∨ h.state_ = .finish) :
    h.FieldsRead := by
  refine ⟨fielded, fun ended => ?_⟩
  rcases state with state | state | state <;> simp [state] at ended

/-- A stage that goes on or waits has kept this. -/
inductive StageFields : Except Conn Conn → Prop
  | goesOn {s : Conn} : s.http.FieldsRead → StageFields (.ok s)
  | stops {s : Conn} : (s.http.error_ = false → s.http.FieldsRead) → StageFields (.error s)

theorem StageFields.bind {r : Except Conn Conn} {stage : Conn → Except Conn Conn}
    (first : StageFields r) (next : ∀ s, s.http.FieldsRead → StageFields (stage s)) :
    StageFields (r.bind stage) := by
  cases first with
  | goesOn fields => exact next _ fields
  | stops waits => exact .stops waits

theorem badRequest_fields (s : Conn) (msg : Bytes) : StageFields (badRequest s msg) :=
  .stops nofun

theorem parseUriStage_fields {s : Conn} (fields : s.http.FieldsRead) :
    StageFields (parseUriStage s) := by
  unfold parseUriStage
  split
  next state =>
    rcases s.http.parseURI_frame with waits | ⟨_, _, _, _, _, flag, _, eq⟩
    · rw [waits]
      exact .stops fun _ => fields
    · rw [eq]
      cases flag with
      | again => exact .stops fun _ => fields.congr rfl rfl rfl
      | error => exact badRequest_fields _ _
      | success => exact .goesOn <| HttpData.fieldsRead_headers fields.scan (.inr (.inl rfl))
  next => exact .goesOn fields

theorem parseHeadersStage_fields (w : World) {s : Conn} (fields : s.http.FieldsRead) :
    StageFields (parseHeadersStage w s) := by
  have read := HttpData.parseHeaders_fielded w.outside fields.scan
  obtain ⟨_, _, _, _, frame⟩ := s.http.parseHeaders_frame w.outside
  unfold parseHeadersStage
  split
  next state =>
    have still : (s.http.parseHeaders w.outside).1.state_ = .parseHeaders := by
      rw [frame]
      exact state
    cases result : s.http.parseHeaders w.outside with
    | mk h flag =>
      rw [result] at read still
      cases flag with
      | again => exact .stops fun _ => HttpData.fieldsRead_headers (read.1 nofun) (.inr (.inl still))
      | thrown => exact .stops fun _ => HttpData.fieldsRead_headers (read.1 nofun) (.inr (.inl still))
      | error => exact badRequest_fields _ _
      | success =>
        have some : h.headers_ ≠ .empty := read.2 rfl
        dsimp only
        split
        all_goals exact .goesOn ⟨fun _ => some, fun _ => some⟩
  next => exact .goesOn fields

theorem recvBodyStage_fields {s : Conn} (fields : s.http.FieldsRead) :
    StageFields (recvBodyStage s) := by
  unfold recvBodyStage
  split
  next state =>
    cases s.http.getContentLength with
    | none => apply badRequest_fields
    | some content_length =>
      dsimp only
      split
      · exact .stops fun _ => fields
      · exact .goesOn ⟨fields.scan, fun _ => fields.ended (.inl state)⟩
  next => exact .goesOn fields

theorem toAnalysis_fields (w : World) {s : Conn} (fields : s.http.FieldsRead) :
    StageFields (toAnalysis w s) := by
  unfold toAnalysis parseStages
  -- The stages in their order; a stage that is not at its state leaves everything.
  apply StageFields.bind
  · have read := readStage_outcome s
    generalize readStage s = r at read
    cases read with
    | stops => exact .stops fun _ => fields.congr rfl rfl rfl
    | fails => exact badRequest_fields _ _
    | goesOn => exact .goesOn (fields.congr rfl rfl rfl)
  · intro s fields
    apply StageFields.bind (parseUriStage_fields fields)
    intro s fields
    apply StageFields.bind (parseHeadersStage_fields w fields)
    intro s fields
    exact recvBodyStage_fields fields

/-- A request that is analysed has a field. -/
theorem toAnalysis_headers {w : World} {s t : Conn} (between : s.http.Between)
    (fields : s.http.FieldsRead) (done : toAnalysis w s = .ok t) : t.http.headers_ ≠ .empty := by
  obtain ⟨ready, _⟩ := toAnalysis_ok between done
  have read := toAnalysis_fields w fields
  rw [done] at read
  cases read with
  | goesOn fields => exact fields.ended (.inr ready.state)

theorem readBlock_fields {w : World} {s : Conn} (between : s.http.Between)
    (fields : s.http.FieldsRead) (alive : (readBlock w s).http.error_ = false) :
    (readBlock w s).http.FieldsRead := by
  have read := toAnalysis_fields w fields
  cases stages : toAnalysis w s with
  | error t =>
    rw [stages] at read
    rw [readBlock_of_error stages] at alive ⊢
    cases read with
    | stops waits => exact waits alive
  | ok t =>
    rw [stages] at read
    obtain @⟨_, before⟩ := read
    obtain ⟨ready, _⟩ := toAnalysis_ok between stages
    rw [readBlock_of_ok stages ready.state] at alive ⊢
    obtain ⟨⟨_, _, _, _, http⟩, _, _⟩ := analysisRequest_frame w t
    have scan : (analysisRequest w t).1.http.hState_ = t.http.hState_ := by rw [http]
    have headers : (analysisRequest w t).1.http.headers_ = t.http.headers_ := by rw [http]
    rcases analyse_cases w t with ⟨_, done⟩ | ⟨_, done⟩
    · rw [done]
      -- The answer leaves the parser as it is, only the state is the last one.
      apply HttpData.fieldsRead_headers
      · intro later
        change (analysisRequest w t).1.http.headers_ ≠ _
        rw [headers]
        exact before.scan (scan ▸ later)
      · exact .inr (.inr rfl)
    · rw [done] at alive
      cases alive

/-! ### Along a run -/

/-- Besides, what has been read of a request holds a field where its header is over. -/
structure Stream.Reading (s : Stream) : Prop where
  attending : s.Attending
  fields : s.conn.http.error_ = false → s.conn.http.FieldsRead

theorem handleWrite_fields {s : Conn} (fields : s.http.error_ = false → s.http.FieldsRead)
    (alive : (handleWrite s).http.error_ = false) : (handleWrite s).http.FieldsRead := by
  have before := (handleWrite_parsed s).1 alive
  unfold handleWrite
  split
  · exact (fields before).congr rfl rfl rfl
  · exact fields before

theorem flush_fields {s : Conn} (fields : s.http.error_ = false → s.http.FieldsRead)
    (alive : (flush s).http.error_ = false) : (flush s).http.FieldsRead := by
  revert alive
  refine flush_cases s ?stays ?writes
  case stays => exact fields
  case writes => exact fun _ => handleWrite_fields fields

namespace Stream

theorem step_reading {w : World} {s : Stream} {l : StreamLabel} {s' : Stream}
    (reading : s.Reading) (taken : step w s l = some s') : s'.Reading := by
  have attending := step_attending reading.attending taken
  refine ⟨attending, ?_⟩
  cases step_steps taken with
  -- Only the block reads on; the other steps leave what has been read.
  | @event a revents rest open_ =>
    have alive := reading.attending.live.alive rest open_
    obtain ⟨point, begun⟩ := begin_conn s a revents
    rw [begun]
    exact fun _ => (reading.fields alive).congr rfl rfl rfl
  | block point =>
    obtain ⟨alive, before⟩ := reading.attending.block point
    exact fun going => readBlock_fields before (reading.fields alive) going
  | flush => exact flush_fields reading.fields
  | reset =>
    -- A new request: nothing of it has been read.
    obtain ⟨timer, http⟩ := reset_http s.conn
    rw [http]
    exact fun _ => HttpData.fieldsRead_headers (HttpData.fielded_start rfl) (.inl rfl)
  | rearm =>
    obtain ⟨events, rearmed⟩ := rearm_events s.conn
    rw [rearmed]
    exact fun going => (reading.fields going).congr rfl rfl rfl
  | out => exact handleWrite_fields reading.fields
  | conn =>
    obtain ⟨channel, timer, state, _, http⟩ := handleConn_http s.conn
    rw [http]
    exact fun going => (reading.fields going).congr rfl rfl rfl
  | expire =>
    rw [handleClose_http]
    exact fun going => (reading.fields going).congr rfl rfl rfl

theorem fresh_reading {s : Stream} (fresh : s.Fresh) : s.Reading := by
  have attending := fresh_attending fresh
  obtain ⟨⟨this, loop, fd, now, epollCtl, epoll, conn⟩, _, _⟩ := fresh
  have idle : Idle s.conn := conn ▸ accepted_idle this loop fd now epollCtl epoll
  have start := idle.settled.between.fresh idle.state
  exact ⟨attending, fun _ => HttpData.fieldsRead_headers (HttpData.fielded_start start)
    (.inl idle.state)⟩

end Stream

/-- In every run of a connection, no request without header fields comes to its analysis. -/
theorem analysed_requests_have_fields {w : World} {s : Stream} (start : s.Fresh)
    (ls : List StreamLabel) : (Stream.machine w).Along (fun s _ _ => s.point = .block →
      ∀ t, toAnalysis w s.conn = .ok t → t.http.headers_ ≠ .empty) s ls := by
  apply Machine.along_of_invariant (I := Stream.Reading)
  · intro s _ _ reading _ point t done
    obtain ⟨alive, before⟩ := reading.attending.block point
    exact toAnalysis_headers before (reading.fields alive) done
  · intro _ _ _ reading taken
    exact Stream.step_reading reading taken
  · exact Stream.fresh_reading start

/-! ### A request line and a blank line -/

/-- These bytes, and `rest` behind them, bring the connection to the analysis of a request
without header fields, with `rest` left in the buffer. -/
def ServedBare (w : World) (s : Conn) (line rest : Bytes) : Prop :=
  ∃ a t, a.Brings (line ++ CRLF ++ CRLF ++ rest) ∧ toAnalysis w (s.meets a EPOLLIN) = .ok t ∧
    t.http.state_ = .analysis ∧ t.http.headers_ = .empty ∧ t.http.inBuffer_ = rest

theorem Idle.not_servedBare {s : Conn} (idle : Idle s) (w : World) (line rest : Bytes) :
    ¬ServedBare w s line rest := by
  rintro ⟨a, t, _, done, _, empty, _⟩
  have between : (s.meets a EPOLLIN).http.Between := idle.settled.between.congr rfl rfl rfl
  have fields : (s.meets a EPOLLIN).http.FieldsRead :=
    HttpData.fieldsRead_headers (HttpData.fielded_start (between.fresh idle.state)) (.inl idle.state)
  exact toAnalysis_headers between fields done empty

/-- The blank line is taken for the beginning of the header. -/
theorem parseStages_bare (w : World) {s : Conn} {line : Bytes} (state : s.http.state_ = .parseUri)
    (start : s.http.hState_ = .start) (position : s.http.nowReadPos_ = 0)
    (buffer : s.http.inBuffer_ = line ++ CRLF ++ CRLF) (whole : CR ∉ line)
    (accepted : s.http.parseURI.2 = .success) : ∃ h : HttpData,
      parseStages w s = .error (s.setHttp h) ∧ h.state_ = .parseHeaders ∧ h.hState_ = .start ∧
        h.inBuffer_ = [LF, CR, LF] ∧ h.error_ = s.http.error_ := by
  have split : s.http.inBuffer_ = line ++ CR :: [LF, CR, LF] := by
    rw [buffer, List.append_assoc]
    rfl
  have uri := HttpData.parseURI_line split whole position
  -- The line is accepted, so only the case that decodes it is left.
  rcases HttpData.parseLine_cases line with
    ⟨method, version, file, eq⟩ | ⟨_, _, eq⟩
  · rw [eq] at uri
    refine ⟨{ s.http with
      inBuffer_ := [LF, CR, LF], method_ := method, HTTPVersion_ := version, fileName_ := file
      state_ := .parseHeaders }, ?_, rfl, start, rfl, rfl⟩
    have line : parseUriStage s = .ok (s.setHttp { s.http with
        inBuffer_ := [LF, CR, LF], method_ := method, HTTPVersion_ := version, fileName_ := file
        state_ := .parseHeaders }) := by
      unfold parseUriStage
      rw [if_pos state, uri]
    unfold parseStages
    rw [line]
    change (parseHeadersStage w (s.setHttp _)).bind recvBodyStage = _
    unfold parseHeadersStage
    rw [if_pos (by rfl), HttpData.parseHeaders_breaks w.outside (by exact start) (by simp [Conn.setHttp])]
    rfl
  · rw [uri, eq] at accepted
    cases accepted

/-- What the handler has of the request when its block is over: the line is decoded, and the rest
is waited for. -/
structure Waits (s t : Conn) : Prop where
  state : t.http.state_ = .parseHeaders
  buffer : t.http.inBuffer_ = [LF, CR, LF]
  alive : t.http.error_ = false
  sent : t.wire.sent = s.wire.sent

/-- No request line is served with a blank line behind it: the handler waits for more, and what
comes then is not a request to it. -/
theorem bare_request_not_served {w : World} {s : Conn} {line : Bytes} (idle : Idle s)
    (whole : CR ∉ line)
    (accepted : (s.received (line ++ CRLF ++ CRLF)).http.parseURI.2 = .success) :
    (∀ rest, ¬ServedBare w s line rest) ∧
      ∀ a, a.Brings (line ++ CRLF ++ CRLF) → (line ++ CRLF ++ CRLF).length < 2 ^ 31 →
        Waits s (readBlock w (s.meets a EPOLLIN)) := by
  refine ⟨fun rest => idle.not_servedBare w line rest, fun a brings small => ?_⟩
  obtain ⟨begins, block⟩ := idle.meets (w := w) brings small
  let t := (s.meets a EPOLLIN).allRead.received (line ++ CRLF ++ CRLF)
  have settled : Settled t := begins.settled.received _
  -- The line is decoded alike, whatever came of the connection before.
  have same : t.http.parseURI.2 = (s.received (line ++ CRLF ++ CRLF)).http.parseURI.2 := by
    rw [HttpData.parseURI_same (k := t.http) (h := (s.received (line ++ CRLF ++ CRLF)).http)
      rfl rfl rfl rfl rfl]
  obtain ⟨h, stages, state, _, buffer, alive⟩ := parseStages_bare w (s := t) begins.state
    (begins.settled.between.fresh begins.state) begins.position (begins.received_buffer _) whole
    (same.trans accepted)
  rw [block, settled.block, stages]
  exact ⟨state, buffer, alive.trans settled.here.error_, rfl⟩

theorem bare_request_not_served_hello :
    Waits .sample (readBlock .bare
      (Conn.sample.meets (arrivalOf (bytes "GET /hello HTTP/1.1" ++ CRLF ++ CRLF)) EPOLLIN)) := by
  have idle : Idle .sample := accepted_idle 0 0 5 ⟨0, 0⟩ true .new
  have whole : CR ∉ bytes "GET /hello HTTP/1.1" := by decide
  have not_served := bare_request_not_served (w := .bare) idle whole (by decide)
  exact not_served.2 _ (arrivalOf_brings _) (by decide)

/-- The line is accepted, and does not come to its analysis with the blank line. -/
theorem bare_hello_waits :
    (HttpData.holding (bytes "GET /hello HTTP/1.1" ++ CRLF ++ CRLF)).parseURI.2 = .success ∧
      ¬ServedBare .bare .sample (bytes "GET /hello HTTP/1.1") [] := by
  have idle : Idle .sample := accepted_idle 0 0 5 ⟨0, 0⟩ true .new
  exact ⟨by decide, idle.not_servedBare .bare _ []⟩

end LightAgent
