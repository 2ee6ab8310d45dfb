import LightAgent.HttpData.Fragmentation
import LightAgent.HttpData.HeaderFields

/-!
# The body of a request

A POST waits for its body and takes exactly that from the buffer. The bodies of GET
and HEAD requests are left there and read as the next request.
-/
namespace LightAgent

open Library

/-! ### The bytes of a request -/

/-- The blank line that ends a header block, with the end of the line before it. -/
def blankLine : Bytes := CRLF ++ CRLF

/-- What stands behind the first blank line of a text. -/
def behindBlank (text : Bytes) : Bytes :=
  match find blankLine text with
  | none => []
  | some i => text.drop (i + blankLine.length)

/-- A request line and header lines that the states of the scan take as such. -/
structure RequestHead where
  line : Bytes
  /-- What follows the CR of the request line: its LF, and perhaps more of them. -/
  breaks : Bytes
  fields : List (Bytes × Bytes)
  line_whole : CR ∉ line
  breaks_only : ∀ c ∈ breaks, c = LF
  nonempty : fields ≠ []
  first : ∀ c, (headerLines fields).head? = some c → c ≠ LF
  scannable : ∀ field ∈ fields, Scannable field
  /-- `Scannable` lets a value begin with a CR. -/
  whole : ∀ field ∈ fields, CR ∉ field.2

/-- The length that header lines declare. -/
def declaredBy (fields : List (Bytes × Bytes)) : Option Nat :=
  { HttpData.new 0 0 0 with headers_ := .ofFields fields }.getContentLength

namespace RequestHead

variable (q : RequestHead)

/-- The head with its blank line. -/
def text : Bytes := q.line ++ CR :: (q.breaks ++ (headerLines q.fields ++ CRLF))

def method : Option HttpMethod := (requestMethod q.line).map (·.1)

/-- A read may end here: before the first byte of the header lines, or behind the blank line. -/
def MayEnd (n : Nat) : Prop := n ≤ q.line.length + 1 + q.breaks.length ∨ q.text.length ≤ n

instance (n : Nat) : Decidable (q.MayEnd n) := inferInstanceAs (Decidable (_ ∨ _))

/-- The places of the header lines fit an `int`. -/
def Small : Prop := q.breaks.length + (headerLines q.fields).length ≤ 2 ^ 31

instance : Decidable q.Small := inferInstanceAs (Decidable (_ ≤ _))

end RequestHead

namespace RequestHead

/-- The first blank line behind a text without a CR and whole header lines. -/
theorem find_blankLine {fields : List (Bytes × Bytes)} (nonempty : fields ≠ [])
    (scannable : ∀ field ∈ fields, Scannable field) (whole : ∀ field ∈ fields, CR ∉ field.2)
    {before : Bytes} (absent : CR ∉ before) (after : Bytes) :
    ∃ i, find blankLine (before ++ (headerLines fields ++ (CRLF ++ after))) = some i ∧
      i + 2 = before.length + (headerLines fields).length := by
  induction fields generalizing before with
  | nil => contradiction
  | cons field fields ih =>
    have here := scannable field List.mem_cons_self
    let line := before ++ (field.1 ++ 58 :: 32 :: field.2)
    have absent' : CR ∉ line := by
      obtain ⟨first, name, value⟩ := here
      have value' := whole _ List.mem_cons_self
      simp only [line, List.mem_append, List.mem_cons, not_or] at value' ⊢
      exact ⟨absent, ⟨first.symm, fun member => (name _ member).2.2 rfl⟩, by decide, by decide, value'⟩
    have length : line.length + 2 = before.length + (headerLine field).length := by
      simp only [line, List.length_append, List.length_cons, headerLine_length]
      omega
    have split : before ++ (headerLines (field :: fields) ++ (CRLF ++ after)) =
        line ++ (CR :: LF :: (headerLines fields ++ (CRLF ++ after))) := by
      simp [line, headerLines_cons, headerLine, CRLF]
    rw [split, length_headerLines_cons]
    change ∃ i, find (CR :: [LF, CR, LF]) _ = some i ∧ _
    rw [find_append_absent absent']
    cases fields with
    | nil =>
      refine ⟨line.length, by simp [headerLines, CRLF, find, List.isPrefixOf], ?_⟩
      change line.length + 2 = before.length + ((headerLine field).length + 0)
      omega
    | cons next fields =>
      obtain ⟨i, found, place⟩ := @ih (List.cons_ne_nil _ _)
        (fun field member => scannable field (List.mem_cons_of_mem _ member))
        (fun field member => whole field (List.mem_cons_of_mem _ member)) [LF] (by decide)
      refine ⟨line.length + 1 + i, ?_, by rw [List.length_singleton] at place; omega⟩
      -- The next line does not begin with a CR, so the line end is no blank line.
      have apart : ¬(CR :: [LF, CR, LF]).isPrefixOf
          (CR :: LF :: (headerLines (next :: fields) ++ (CRLF ++ after))) := by
        obtain ⟨first, _, _⟩ := scannable next (List.mem_cons_of_mem _ List.mem_cons_self)
        simp [headerLines, headerLine, List.isPrefixOf, first.symm]
      rw [find, if_neg apart]
      change ((find blankLine ([LF] ++ (headerLines (next :: fields) ++ _))).map _).map _ = _
      rw [found, Option.map_some, Option.map_some]
      congr 1
      omega

variable (q : RequestHead)

/-- The head ends at the first blank line. -/
theorem behindBlank_text (after : Bytes) : behindBlank (q.text ++ after) = after := by
  -- Behind the CR of the request line there are LFs and then a byte that is none.
  have apart : ¬(CR :: [LF, CR, LF]).isPrefixOf
      (CR :: (q.breaks ++ (headerLines q.fields ++ (CRLF ++ after)))) := by
    obtain ⟨field, fields, lines⟩ := List.exists_cons_of_ne_nil q.nonempty
    have begins := q.first
    obtain ⟨other, _, _⟩ := q.scannable field (by rw [lines]; exact List.mem_cons_self)
    rw [lines] at begins ⊢
    have notLf := begins _ rfl
    cases breaks : q.breaks with
    | nil => simp [headerLines, headerLine, List.isPrefixOf, notLf.symm]
    | cons b breaks' =>
      cases breaks' with
      | nil => simp [headerLines, headerLine, List.isPrefixOf, other.symm]
      | cons c breaks'' =>
        have same : c = LF := q.breaks_only c (by simp [breaks])
        simp [List.isPrefixOf, same, CR, LF]
  have absent : CR ∉ q.breaks := fun member => absurd (q.breaks_only CR member) (by decide)
  obtain ⟨i, found, place⟩ := find_blankLine q.nonempty q.scannable q.whole absent after
  have text : q.text ++ after =
      q.line ++ CR :: (q.breaks ++ (headerLines q.fields ++ (CRLF ++ after))) := by
    simp [RequestHead.text]
  have found' : find blankLine (q.text ++ after) = some (q.line.length + 1 + i) := by
    rw [text]
    change find (CR :: [LF, CR, LF]) _ = _
    rw [find_append_absent q.line_whole, find, if_neg apart]
    change ((find blankLine _).map _).map _ = _
    rw [found, Option.map_some, Option.map_some]
    congr 1
    omega
  have length : q.text.length = q.line.length + 1 + i + blankLine.length := by
    simp only [RequestHead.text, List.length_append, List.length_cons, CRLF, List.length_nil,
      blankLine]
    omega
  unfold behindBlank
  rw [found']
  dsimp only
  rw [← length, List.drop_left]

end RequestHead

/-! ### The activations that receive a request -/

/-- No part of a request is parsed: the members are as the constructor and `reset` leave them. -/
structure HttpData.BeforeRequest (h : HttpData) : Prop where
  state : h.state_ = .parseUri
  position : h.nowReadPos_ = 0
  scan : h.hState_ = .start
  headers : h.headers_ = .empty

/-- The bytes the read of an activation brings. -/
def Conn.brought (s : Conn) : Bytes := (readn [] s.wire.reads).inBuffer

/-- What a loop does with a connection from one `readn` to the next one. -/
inductive Between : Conn → Conn → Prop
  | refl (s : Conn) : Between s s
  | write {s t : Conn} : Between s t → Between s (handleWrite t)
  | conn {s t : Conn} : Between s t → Between s (handleConn t)
  | event {s t : Conn} (a : Arrival) (revents : Events) :
      Between s t → Between s ((t.meets a revents).setEvents 0)

/-- An activation of `handleRead` works on a request. The chunks are what has been received for it
by this activation and those before: the first one has found what was left in the buffer, too. -/
inductive Receiving (w : World) : Conn → List Bytes → Prop
  | begins {c : Conn} : c.http.BeforeRequest → Receiving w c [c.http.inBuffer_ ++ c.brought]
  | more {c c' : Conn} {chunks : List Bytes} : Receiving w c chunks →
      ¬(readBlock w c).finished → Between (rearm (flush (readBlock w c))) c' →
      c'.http.connectionState_ ≠ .disconnected → Receiving w c' (chunks ++ [c'.brought])

namespace RequestHead

variable {w : World} {q : RequestHead} {received : Bytes}

/-- What may have come: at most the request line with its breaks, or the head. -/
inductive Comes (q : RequestHead) : Bytes → Prop
  | line {received : Bytes} : received <+: q.line ++ CR :: q.breaks → Comes q received
  | head (after : Bytes) : Comes q (q.text ++ after)

theorem comes_of_mayEnd {all : Bytes} (whole : q.text <+: all) (part : received <+: all)
    (ends : q.MayEnd received.length) : q.Comes received := by
  rcases ends with early | late
  · have split : q.text = (q.line ++ CR :: q.breaks) ++ (headerLines q.fields ++ CRLF) := by
      simp [text]
    refine .line (List.prefix_of_prefix_length_le part
      (List.IsPrefix.trans (split ▸ List.prefix_append _ _) whole) ?_)
    rw [List.length_append, List.length_cons]
    omega
  · obtain ⟨after, rfl⟩ := List.prefix_of_prefix_length_le whole part late
    exact .head after

/-- Once the CR has come the request line is there. -/
theorem Comes.split (comes : q.Comes received) :
    CR ∉ received ∨ ∃ rest, received = q.line ++ CR :: rest := by
  cases comes with
  | head after => exact .inr ⟨_, by rw [text, List.append_assoc, List.cons_append]⟩
  | line part =>
    by_cases short : received.length ≤ q.line.length
    · have inLine := List.prefix_of_prefix_length_le part (List.prefix_append _ _) short
      exact .inl fun member => q.line_whole (inLine.subset member)
    · have whole : q.line ++ [CR] <+: received := by
        refine List.prefix_of_prefix_length_le ⟨q.breaks, by simp⟩ part ?_
        rw [List.length_append, List.length_singleton]
        omega
      obtain ⟨rest, rfl⟩ := whole
      exact .inr ⟨rest, by simp⟩

/-- Behind the request line only its breaks have come, or the rest of the head. -/
theorem Comes.rest {rest : Bytes} (comes : q.Comes (q.line ++ CR :: rest)) :
    (∀ c ∈ rest, c = LF ∨ c = CR) ∨
      ∃ after, rest = q.breaks ++ (headerLines q.fields ++ (CRLF ++ after)) := by
  generalize eq : q.line ++ CR :: rest = received at comes
  cases comes with
  | line part =>
    rw [← eq, List.prefix_append_right_inj, List.cons_prefix_cons] at part
    exact .inl fun c member => .inl (q.breaks_only c (part.2.subset member))
  | head after =>
    have same : q.line ++ CR :: rest =
        q.line ++ CR :: (q.breaks ++ (headerLines q.fields ++ (CRLF ++ after))) := by
      rw [eq]
      simp [text]
    exact .inr ⟨after, (List.cons.inj (List.append_cancel_left same)).2⟩

/-- Where the members are with what has been received. -/
inductive At (q : RequestHead) (received : Bytes) (h : HttpData) : Prop
  | line : h.BeforeRequest → h.inBuffer_ = received → At q received h
  | block : h.state_ = .parseHeaders → h.hState_ = .start → h.headers_ = .empty →
      q.method = some h.method_ → q.line ++ CR :: h.inBuffer_ = received → At q received h
  | body : h.state_ = .recvBody → h.method_ = .post → q.method = some .post →
      h.getContentLength = declaredBy q.fields → q.text ++ h.inBuffer_ = received →
      At q received h

/-- The parsing gets to the body with the head behind it. -/
structure AtBody (w : World) (q : RequestHead) (received : Bytes) (c s : Conn) : Prop where
  stages : parseStages w c = recvBodyStage s
  state : (s.http.state_ = .recvBody ∧ s.http.method_ = .post) ∨
    (s.http.state_ = .analysis ∧ s.http.method_ ≠ .post)
  method : q.method = some s.http.method_
  length : s.http.getContentLength = declaredBy q.fields
  buffer : q.text ++ s.http.inBuffer_ = received

/-- What the parsing can do with what has been received. -/
inductive Parses (w : World) (q : RequestHead) (received : Bytes) (c : Conn) : Prop
  | waits (s : Conn) : parseStages w c = .error s → q.At received s.http → Parses w q received c
  | fails (s : Conn) : parseStages w c = .error s → s.http.error_ = true → Parses w q received c
  | gets (s : Conn) : AtBody w q received c s → Parses w q received c

/-- Lines of this size come through or are refused; nothing throws. -/
theorem measured_or_refused (q : RequestHead) (small : q.Small) :
    AllMeasured q.breaks.length q.fields ∨ Refused q.breaks.length q.fields := by
  have solid (field : Bytes × Bytes) (member : field ∈ q.fields) : field.1 ≠ [] ∧ field.2 ≠ [] := by
    obtain ⟨_, _, _⟩ := q.scannable field member
    exact ⟨List.cons_ne_nil _ _, List.cons_ne_nil _ _⟩
  unfold Small at small
  by_cases long : ∃ field ∈ q.fields, 256 < field.2.length
  · exact .inr (refused_of_small solid long (by omega))
  · simp only [not_exists, not_and, Nat.not_lt] at long
    exact .inl (allMeasured_of_small (fun field member =>
      ⟨(solid field member).1, (solid field member).2, long field member⟩) (by omega))

theorem headerText (q : RequestHead) (after : Bytes) :
    HeaderText (q.breaks ++ (headerLines q.fields ++ (CRLF ++ after))) q.breaks q.fields after := by
  refine ⟨rfl, fun c member => .inl (q.breaks_only c member), q.nonempty, ?_, q.scannable⟩
  intro c first
  refine ⟨q.first c first, ?_⟩
  obtain ⟨field, fields, lines⟩ := List.exists_cons_of_ne_nil q.nonempty
  obtain ⟨other, _, _⟩ := q.scannable field (by rw [lines]; exact List.mem_cons_self)
  rw [lines] at first
  cases first
  exact other

/-- In the header block: the scan starts over until the block is there, and then goes through. -/
theorem block_parses {c : Conn} (small : q.Small) (state : c.http.state_ = .parseHeaders)
    (start : c.http.hState_ = .start) (headers : c.http.headers_ = .empty)
    (method : q.method = some c.http.method_) (buffer : q.line ++ CR :: c.http.inBuffer_ = received)
    (comes : q.Comes received) : Parses w q received c := by
  have skips : parseStages w c = (parseHeadersStage w c).bind recvBodyStage := by
    unfold parseStages
    rw [parseUriStage_skips (by rw [state]; decide)]
    rfl
  rw [← buffer] at comes
  rcases comes.rest with breaks | ⟨after, text⟩
  · refine .waits c ?_ (.block state start headers method buffer)
    rw [skips]
    unfold parseHeadersStage
    rw [if_pos state, HttpData.parseHeaders_breaks w.outside start breaks]
    rfl
  · have block : HeaderText c.http.inBuffer_ q.breaks q.fields after := text ▸ q.headerText after
    rcases q.measured_or_refused small with measured | refused
    · have cut : c.http.inBuffer_.drop q.breaks.length = headerLines q.fields ++ (CRLF ++ after) := by
        rw [text, List.drop_left]
      have parsed := HttpData.parseHeaders_text w.outside start block measured
      rw [slices_of_small w.outside cut (Nat.le_succ_of_le small), headers] at parsed
      let s := c.setHttp { c.http with
        hState_ := .endLf
        headers_ := .ofFields q.fields
        inBuffer_ := after
        state_ := if c.http.method_ = .post then .recvBody else .analysis }
      have stage : parseHeadersStage w c = .ok s := by
        unfold parseHeadersStage
        rw [if_pos state, parsed]
        dsimp only [s]
        split <;> rfl
      refine .gets s ⟨by rw [skips, stage]; rfl, ?_, method, ?_, ?_⟩
      · by_cases post : c.http.method_ = .post
        · exact .inl ⟨if_pos post, post⟩
        · exact .inr ⟨if_neg post, post⟩
      · exact HttpData.getContentLength_congr rfl
      · rw [← buffer, text]
        simp [s, RequestHead.text, Conn.setHttp]
    · have failed := HttpData.parseHeaders_text_error w.outside start block refused
      cases result : c.http.parseHeaders w.outside with
      | mk h flag =>
        rw [result] at failed
        cases failed
        refine .fails (handleError (c.setHttp { h with error_ := true }) 400 (bytes "Bad Request")) ?_ rfl
        rw [skips]
        unfold parseHeadersStage
        rw [if_pos state, result]
        rfl

theorem Parses.congr {c c' : Conn} (parses : Parses w q received c')
    (same : parseStages w c = parseStages w c') : Parses w q received c := by
  cases parses with
  | waits s stops there => exact .waits s (same.trans stops) there
  | fails s stops failed => exact .fails s (same.trans stops) failed
  | gets s body => exact .gets s { body with stages := same.trans body.stages }

theorem method_of_parseLine {h : HttpData} {line : Bytes}
    (success : (h.parseLine line).2 = .success) :
    (requestMethod line).map (·.1) = some (h.parseLine line).1.method_ := by
  unfold HttpData.parseLine at success ⊢
  cases found : requestMethod line with
  | none => rw [found] at success; cases success
  | some place =>
    rw [found] at success
    dsimp only at success ⊢
    repeat' split
    all_goals rfl

/-- The parsing is at the request line, in the header block or at the body. -/
theorem At.parses {c : Conn} (at_ : q.At received c.http) (small : q.Small)
    (comes : q.Comes received) : Parses w q received c := by
  cases at_ with
  | line before buffer =>
    rcases comes.split with absent | ⟨rest, rfl⟩
    · have again : c.http.parseURI = (c.http, .again) := by
        unfold HttpData.parseURI
        rw [before.position, buffer, findFrom_byte_absent absent]
      refine .waits c ?_ (.line before buffer)
      unfold parseStages parseUriStage
      rw [if_pos before.state, again]
      rfl
    · have line := HttpData.parseURI_line buffer q.line_whole before.position
      rcases HttpData.parseLine_cases q.line with ⟨verb, version, file, eq⟩ | ⟨verb, file, eq⟩
      · have method : q.method = some verb := by
          have taken := @method_of_parseLine c.http q.line (by rw [eq])
          rw [eq] at taken
          exact taken
        rw [eq] at line
        let c' := c.setHttp { c.http with
          inBuffer_ := rest, method_ := verb, HTTPVersion_ := version, fileName_ := file
          state_ := .parseHeaders }
        have stage : parseUriStage c = .ok c' := by
          unfold parseUriStage
          rw [if_pos before.state, line]
        have same : parseStages w c = parseStages w c' := by
          unfold parseStages
          rw [stage, @parseUriStage_skips c' (fun state => nomatch state)]
        exact (@block_parses w q _ c' small rfl before.scan before.headers method rfl comes).congr same
      · rw [eq] at line
        refine .fails (handleError (c.setHttp { c.http with
          inBuffer_ := [], method_ := verb c.http.method_, fileName_ := file c.http.fileName_
          error_ := true }) 400 (bytes "Bad Request"))
          ?_ rfl
        unfold parseStages parseUriStage
        rw [if_pos before.state, line]
        rfl
  | block state start headers method buffer =>
    exact block_parses small state start headers method buffer comes
  | body state post method length buffer =>
    refine .gets c ⟨?_, .inl ⟨state, post⟩, method.trans (congrArg some post.symm), length, buffer⟩
    unfold parseStages
    rw [parseUriStage_skips (by rw [state]; decide)]
    change (parseHeadersStage w c).bind recvBodyStage = _
    rw [parseHeadersStage_skips (by rw [state]; decide)]
    rfl

end RequestHead

/-! ### What happens between two reads -/

/-- The members that say where a request is. -/
structure Keeps (s t : Conn) : Prop where
  state_ : t.http.state_ = s.http.state_
  method_ : t.http.method_ = s.http.method_
  headers_ : t.http.headers_ = s.http.headers_
  inBuffer_ : t.http.inBuffer_ = s.http.inBuffer_
  nowReadPos_ : t.http.nowReadPos_ = s.http.nowReadPos_
  hState_ : t.http.hState_ = s.http.hState_
  connectionState_ : t.http.connectionState_ = s.http.connectionState_ ∨
    t.http.connectionState_ = .disconnected
  error_ : s.http.error_ = true → t.http.error_ = true

theorem Keeps.refl (s : Conn) : Keeps s s := ⟨rfl, rfl, rfl, rfl, rfl, rfl, .inl rfl, id⟩

theorem Keeps.trans {s t u : Conn} (first : Keeps s t) (second : Keeps t u) : Keeps s u where
  state_ := second.state_.trans first.state_
  method_ := second.method_.trans first.method_
  headers_ := second.headers_.trans first.headers_
  inBuffer_ := second.inBuffer_.trans first.inBuffer_
  nowReadPos_ := second.nowReadPos_.trans first.nowReadPos_
  hState_ := second.hState_.trans first.hState_
  connectionState_ := by
    rcases second.connectionState_ with same | gone
    · rw [same]; exact first.connectionState_
    · exact .inr gone
  error_ failed := second.error_ (first.error_ failed)

theorem handleWrite_keeps (s : Conn) : Keeps s (handleWrite s) := by
  unfold handleWrite
  split
  · exact ⟨rfl, rfl, rfl, rfl, rfl, rfl, .inl rfl, fun failed => by simp [afterWrite, failed]⟩
  · exact .refl s

theorem flush_keeps (s : Conn) : Keeps s (flush s) :=
  flush_cases s (.refl s) fun _ => handleWrite_keeps s

theorem rearm_keeps (s : Conn) : Keeps s (rearm s) := by
  obtain ⟨events, rearmed⟩ := rearm_events s
  rw [rearmed]
  exact ⟨rfl, rfl, rfl, rfl, rfl, rfl, .inl rfl, id⟩

theorem handleConn_keeps (s : Conn) : Keeps s (handleConn s) := by
  obtain ⟨channel, timer, state, moved, http⟩ := handleConn_http s
  exact ⟨by rw [http], by rw [http], by rw [http], by rw [http], by rw [http], by rw [http],
    by rw [http]; exact moved, by rw [http]; exact id⟩

theorem Between.keeps {s t : Conn} (between : Between s t) : Keeps s t := by
  induction between with
  | refl => exact .refl _
  | write _ ih => exact ih.trans (handleWrite_keeps _)
  | conn _ ih => exact ih.trans (handleConn_keeps _)
  | event a revents _ ih => exact ih.trans ⟨rfl, rfl, rfl, rfl, rfl, rfl, .inl rfl, id⟩

theorem readnFrom_append (inBuffer start : Bytes) (readSum readSum' : Nat) (rs : List ReadResult) :
    (readnFrom (start ++ inBuffer) readSum rs).inBuffer =
      start ++ (readnFrom inBuffer readSum' rs).inBuffer := by
  induction rs generalizing inBuffer readSum readSum' with
  | nil => rfl
  | cons r rs ih =>
    cases r with
    | data b bs => rw [readnFrom, readnFrom, List.append_assoc]; exact ih _ _ _
    | eintr => exact ih _ _ _
    | eof => rfl
    | eagain => rfl
    | error => rfl

/-- A read that goes on has put what it brought behind the buffer. -/
theorem readStage_ok {s s' : Conn} (read : readStage s = .ok s') :
    s.http.connectionState_ ≠ .disconnecting ∧
      s'.http.inBuffer_ = s.http.inBuffer_ ++ s.brought ∧
      s'.http.state_ = s.http.state_ ∧ s'.http.method_ = s.http.method_ ∧
      s'.http.headers_ = s.http.headers_ ∧ s'.http.nowReadPos_ = s.http.nowReadPos_ ∧
      s'.http.hState_ = s.http.hState_ := by
  have bytes : (readn s.http.inBuffer_ s.wire.reads).inBuffer = s.http.inBuffer_ ++ s.brought := by
    have moved := readnFrom_append [] s.http.inBuffer_ 0 0 s.wire.reads
    rw [List.append_nil] at moved
    exact moved
  unfold readStage at read
  dsimp only at read
  split at read
  · cases read
  -- Each way on has added what was read, and nothing else has changed but the state of the peer.
  next here =>
    refine ⟨here, ?_⟩
    repeat' split at read
    all_goals cases read
    all_goals exact ⟨bytes, rfl, rfl, rfl, rfl, rfl⟩

theorem analyse_ends (w : World) (s : Conn) :
    (analyse w s).finished ∨ (analyse w s).http.error_ = true := by
  rcases analyse_cases w s with ⟨_, done⟩ | ⟨_, done⟩
  · rw [done]
    cases state : (analysisRequest w s).1.http.error_ with
    | true => exact .inr state
    | false => exact .inl ⟨state, rfl⟩
  · rw [done]
    exact .inr rfl

theorem readBlock_of_error {w : World} {s s' : Conn} (stops : toAnalysis w s = .error s') :
    readBlock w s = s' := by
  unfold readBlock
  rw [stops]
  rfl

theorem readBlock_of_ok {w : World} {s s' : Conn} (done : toAnalysis w s = .ok s')
    (state : s'.http.state_ = .analysis) : readBlock w s = analyse w s' := by
  unfold readBlock
  rw [done]
  exact if_pos state

theorem recvBodyStage_waits {s s' : Conn} (body : s.http.state_ = .recvBody)
    (stops : recvBodyStage s = .error s') : s' = s ∨ s'.http.error_ = true := by
  unfold recvBodyStage at stops
  rw [if_pos body] at stops
  split at stops
  · cases stops; exact .inr rfl
  · split at stops
    · cases stops; exact .inl rfl
    · cases stops

theorem readStage_error {w : World} {c c₁ : Conn} (read : readStage c = .error c₁) :
    ((readBlock w c).http.connectionState_ = .disconnecting ∧
        (readBlock w c).http.state_ = c.http.state_) ∨
      (readBlock w c).http.error_ = true := by
  have block : readBlock w c = c₁ := readBlock_of_error (by unfold toAnalysis; rw [read]; rfl)
  have outcome := readStage_outcome c
  rw [block]
  rw [read] at outcome
  generalize eq : (Except.error c₁ : Except Conn Conn) = r at outcome
  cases outcome with
  | goesOn => cases eq
  | stops => cases eq; exact .inl ⟨rfl, rfl⟩
  | fails => cases eq; exact .inr rfl

namespace RequestHead

variable {w : World} {q : RequestHead} {received : Bytes} {c c' : Conn}

theorem At.keeps (at_ : q.At received c.http) (kept : Keeps c c') : q.At received c'.http := by
  cases at_ with
  | line before buffer =>
    exact .line ⟨kept.state_.trans before.state, kept.nowReadPos_.trans before.position,
      kept.hState_.trans before.scan, kept.headers_.trans before.headers⟩
      (kept.inBuffer_.trans buffer)
  | block state start headers method buffer =>
    exact .block (kept.state_.trans state) (kept.hState_.trans start)
      (kept.headers_.trans headers) (by rw [kept.method_]; exact method)
      (by rw [kept.inBuffer_]; exact buffer)
  | body state post method length buffer =>
    exact .body (kept.state_.trans state) (kept.method_.trans post) method
      ((HttpData.getContentLength_congr kept.headers_).trans length)
      (by rw [kept.inBuffer_]; exact buffer)

theorem At.reads (at_ : q.At received c.http) (read : readStage c = .ok c') :
    q.At (received ++ c.brought) c'.http := by
  obtain ⟨_, buffer', state', method', headers', position', scan'⟩ := readStage_ok read
  cases at_ with
  | line before buffer =>
    exact .line ⟨state'.trans before.state, position'.trans before.position,
      scan'.trans before.scan, headers'.trans before.headers⟩ (by rw [buffer', buffer])
  | block state start headers method buffer =>
    exact .block (state'.trans state) (scan'.trans start) (headers'.trans headers)
      (by rw [method']; exact method) (by rw [buffer', ← buffer]; simp)
  | body state post method length buffer =>
    exact .body (state'.trans state) (method'.trans post) method
      ((HttpData.getContentLength_congr headers').trans length)
      (by rw [buffer', ← buffer, List.append_assoc])

theorem At.unfinished (at_ : q.At received c.http) : c.http.state_ ≠ .finish := by
  cases at_ with
  | line before _ => rw [before.state]; decide
  | block state _ _ _ _ => rw [state]; decide
  | body state _ _ _ _ => rw [state]; decide

/-- What an activation has made of what has been received. -/
inductive Outcome (w : World) (q : RequestHead) (received : Bytes) (c : Conn) : Prop
  | fails : (readBlock w c).http.error_ = true → Outcome w q received c
  | gone : (readBlock w c).http.connectionState_ = .disconnecting →
      (readBlock w c).http.state_ ≠ .finish → Outcome w q received c
  | waits : q.At received (readBlock w c).http → Outcome w q received c
  | analyses (s : Conn) : readBlock w c = analyse w s → s.http.Ready →
      q.method = some s.http.method_ → s.http.getContentLength = declaredBy q.fields →
      q.text ++ s.http.inBuffer_ = received → Outcome w q received c

/-- At the body the request is complete, or a POST waits for the rest of it. -/
theorem AtBody.outcome {s : Conn} (body : AtBody w q received c' s) (read : readStage c = .ok c') :
    Outcome w q received c := by
  have stages : toAnalysis w c = recvBodyStage s := by
    unfold toAnalysis
    rw [read]
    exact body.stages
  rcases body.state with ⟨state, post⟩ | ⟨state, other⟩
  · cases stage : recvBodyStage s with
    | error s' =>
      have block := readBlock_of_error (stages.trans stage)
      rcases recvBodyStage_waits state stage with rfl | failed
      · refine .waits (block ▸ .body state post ?_ body.length body.buffer)
        rw [body.method, post]
      · exact .fails (block ▸ failed)
    | ok s' =>
      have ready : s'.http.Ready := by
        rcases recvBodyStage_ok stage with ⟨past, _⟩ | ⟨_, ready⟩
        · exact absurd state past
        · exact ready
      have same : s' = s.setHttp { s.http with state_ := .analysis } := by
        unfold recvBodyStage at stage
        rw [if_pos state] at stage
        repeat' split at stage
        all_goals cases stage
        rfl
      refine .analyses s' (readBlock_of_ok (stages.trans stage) ready.state) ready ?_ ?_ ?_
      all_goals rw [same]
      · exact body.method
      · exact body.length
      · exact body.buffer
  · have skips : recvBodyStage s = .ok s := recvBodyStage_skips (by rw [state]; decide)
    exact .analyses s (readBlock_of_ok (stages.trans skips) state)
      ⟨state, fun post => absurd post other⟩ body.method body.length body.buffer

/-- An activation goes on with the request where the one before has left it. -/
theorem At.outcome (at_ : q.At received c.http) (small : q.Small)
    (comes : q.Comes (received ++ c.brought)) : Outcome w q (received ++ c.brought) c := by
  cases read : readStage c with
  | error c' =>
    rcases readStage_error (w := w) read with ⟨gone, same⟩ | failed
    · exact .gone gone (same ▸ at_.unfinished)
    · exact .fails failed
  | ok c' =>
    have stages : toAnalysis w c = parseStages w c' := by
      unfold toAnalysis
      rw [read]
      rfl
    cases (at_.reads read).parses (w := w) small comes with
    | waits s stops there => exact .waits (readBlock_of_error (stages.trans stops) ▸ there)
    | fails s stops failed => exact .fails (readBlock_of_error (stages.trans stops) ▸ failed)
    | gets s body => exact body.outcome read

end RequestHead

open RequestHead

/-- As long as no read ends in the header block, each activation finds the request as the last one
has left it. -/
theorem Receiving.outcome {w : World} {q : RequestHead} {c : Conn} {chunks : List Bytes} {all : Bytes}
    (receiving : Receiving w c chunks) (small : q.Small) (whole : q.text <+: all)
    (part : chunks.flatten <+: all)
    (ends : ∀ k ≤ chunks.length, q.MayEnd (chunks.take k).flatten.length) :
    Outcome w q chunks.flatten c := by
  induction receiving with
  | @begins c before =>
    have comes := comes_of_mayEnd whole part (ends 1 (Nat.le_refl 1))
    have at_ : q.At c.http.inBuffer_ c.http := .line before rfl
    rw [List.flatten_singleton] at comes ⊢
    exact at_.outcome small comes
  | @more c c' chunks receiving waits between here ih =>
    have last : (chunks ++ [c'.brought]).flatten = chunks.flatten ++ c'.brought := by simp
    have comes := comes_of_mayEnd whole part (by
      have end_ := ends (chunks ++ [c'.brought]).length (Nat.le_refl _)
      rwa [List.take_length] at end_)
    rw [last] at comes part ⊢
    have kept := ((flush_keeps (readBlock w c)).trans (rearm_keeps _)).trans between.keeps
    have failed (error : (readBlock w c).http.error_ = true) :
        Outcome w q (chunks.flatten ++ c'.brought) c' :=
      .fails ((readBlock_block w c').error_ (kept.error_ error))
    have before := ih (List.IsPrefix.trans (List.prefix_append _ _) part) fun k inside => by
      have end_ := ends k (by rw [List.length_append]; omega)
      rwa [List.take_append_of_le_length inside] at end_
    cases before with
    | fails error => exact failed error
    | waits at_ => exact (at_.keeps kept).outcome small comes
    | analyses s done _ _ _ _ =>
      rw [done] at waits failed
      exact failed ((analyse_ends w s).resolve_left waits)
    | gone gone unfinished =>
      have gone' : c'.http.connectionState_ = .disconnecting := by
        rcases kept.connectionState_ with same | closed
        · exact same.trans gone
        · exact absurd closed here
      cases read : readStage c' with
      | ok c₁ => exact absurd gone' (readStage_ok read).1
      | error c₁ =>
        rcases readStage_error (w := w) read with ⟨gone, same⟩ | error
        · exact .gone gone (by rw [same, kept.state_]; exact unfinished)
        · exact .fails error

/-! ### What is taken from the buffer -/

/-- Exactly `n` of the bytes behind the blank line are gone. -/
def Framed (n : Nat) (after left : Bytes) : Prop := n ≤ after.length ∧ left = after.drop n

instance (n : Nat) (after left : Bytes) : Decidable (Framed n after left) :=
  inferInstanceAs (Decidable (_ ∧ _))

theorem framed_self (n : Nat) (after : Bytes) : Framed n after after ↔ n = 0 := by
  unfold Framed
  constructor
  · rintro ⟨enough, same⟩
    have lengths := congrArg List.length same
    rw [List.length_drop] at lengths
    omega
  · rintro rfl
    exact ⟨Nat.zero_le _, rfl⟩

theorem answerApiRequest_left (view : LightAgentGateway.View) (s : Conn)
    (contentLength : Option Nat) (body : Bytes)
    (answered : (answerApiRequest view s contentLength body).2 = .success) :
    (answerApiRequest view s contentLength body).1.http.inBuffer_ =
      contentLength.elim s.http.inBuffer_ fun length => s.http.inBuffer_.drop length := by
  unfold answerApiRequest at answered ⊢
  dsimp only at answered ⊢
  generalize LightAgentGateway.handle view
    ⟨toGatewayMethod s.http.method_, bytes "/" ++ s.http.fileName_, body⟩ = answer at answered ⊢
  cases answer with
  | none => cases answered
  | some response => cases contentLength <;> rfl

theorem analysisApiRequest_left (view : LightAgentGateway.View) {s : Conn} {n : Nat}
    (length : s.http.getContentLength = some n)
    (answered : (analysisApiRequest view s).2 = .success) :
    (analysisApiRequest view s).1.http.inBuffer_ =
      if s.http.method_ = .post then s.http.inBuffer_.drop n else s.http.inBuffer_ := by
  unfold analysisApiRequest at answered ⊢
  rw [length] at answered ⊢
  by_cases post : s.http.method_ = .post
  -- Of a POST the body is cut off, and only where it was complete.
  · simp only [if_pos post] at answered ⊢
    by_cases short : toInt s.http.inBuffer_.length < n
    · rw [if_pos short] at answered; cases answered
    · rw [if_neg short] at answered ⊢
      exact answerApiRequest_left view s (some n) _ answered
  · simp only [if_neg post] at answered ⊢
    exact answerApiRequest_left view s none _ answered

theorem analysisStaticRequest_left (fs : Bytes → Option FileStat) (s : Conn) :
    (analysisStaticRequest fs s).1.http.inBuffer_ = s.http.inBuffer_ := by
  unfold analysisStaticRequest
  dsimp only
  repeat' split
  all_goals rfl

/-- What an answered request leaves in the buffer: a POST all but its body, any other
request everything. -/
theorem analysisRequest_left {w : World} {s : Conn} {n : Nat}
    (length : s.http.getContentLength = some n)
    (answered : (analysisRequest w s).2 = .success) :
    (analysisRequest w s).1.http.inBuffer_ =
      if s.http.method_ = .post then s.http.inBuffer_.drop n else s.http.inBuffer_ := by
  by_cases api : (bytes "api/").isPrefixOf s.http.fileName_ = true
  · unfold analysisRequest at answered ⊢
    dsimp only at answered ⊢
    rw [if_pos api] at answered ⊢
    exact analysisApiRequest_left _
      (s := { s with wire := { s.wire with served := s.wire.served + 1 } }) length answered
  -- A file is served without a look at the body.
  · by_cases post : s.http.method_ = .post
    · rw [analysisRequest_post w api post] at answered
      cases answered
    · rw [analysisRequest_static w api post, if_neg post]
      exact analysisStaticRequest_left _ _

theorem analyse_left {w : World} {s : Conn} {n : Nat} (length : s.http.getContentLength = some n)
    (answered : (analyse w s).finished) : (analyse w s).http.method_ = s.http.method_ ∧
      (analyse w s).http.inBuffer_ =
        if s.http.method_ = .post then s.http.inBuffer_.drop n else s.http.inBuffer_ := by
  have left := analysisRequest_left (w := w) length
  obtain ⟨⟨_, _, _, _, http⟩, _, _⟩ := analysisRequest_frame w s
  -- Only an answered request is finished.
  rcases analyse_cases w s with ⟨success, done⟩ | ⟨_, done⟩
  · rw [done]
    have method : (analysisRequest w s).1.http.method_ = s.http.method_ := by rw [http]
    exact ⟨method, left success⟩
  · rw [done] at answered
    exact nomatch answered.1

/-- The body of an answered request is taken from the buffer exactly when the request is a
POST or the body is empty, where no read has ended in the header block. -/
theorem body_framing_iff {w : World} {c : Conn} {chunks : List Bytes} {q : RequestHead} {n : Nat}
    (receiving : Receiving w c chunks) (head : q.text <+: chunks.flatten)
    (declares : declaredBy q.fields = some n) (small : q.Small)
    (ends : ∀ k < chunks.length, q.MayEnd (chunks.take k).flatten.length)
    (answered : (readBlock w c).finished) :
    Framed n (behindBlank chunks.flatten) (readBlock w c).http.inBuffer_ ↔
      q.method = some .post ∨ n = 0 := by
  have ends' (k : Nat) (inside : k ≤ chunks.length) : q.MayEnd (chunks.take k).flatten.length := by
    rcases Nat.lt_or_eq_of_le inside with less | rfl
    · exact ends k less
    · rw [List.take_length]
      exact .inr head.length_le
  cases receiving.outcome small head (List.prefix_refl _) ends' with
  | fails failed => exact nomatch failed.symm.trans answered.1
  | gone _ unfinished => exact absurd answered.2 unfinished
  | waits at_ => exact absurd answered.2 at_.unfinished
  | analyses s done ready method length buffer =>
    have length' := length.trans declares
    rw [← buffer, q.behindBlank_text]
    rw [done] at answered ⊢
    obtain ⟨_, left⟩ := analyse_left length' answered
    rw [left, method, Option.some.injEq]
    -- Only the POST path cuts the body off.
    by_cases post : s.http.method_ = .post
    · obtain ⟨m, declared, enough⟩ := ready.body post
      cases Option.some.inj (length'.symm.trans declared)
      have within := toInt_nonneg_le enough
      rw [if_pos post]
      exact ⟨fun _ => .inl post, fun _ => ⟨within, rfl⟩⟩
    · rw [if_neg post, framed_self]
      exact ⟨.inr, fun h => h.resolve_left post⟩

/-- The activation that reads a request which comes alone to a fresh connection. -/
def Conn.reading (r : Bytes) : Conn := (Conn.sample.meets (arrivalOf r) EPOLLIN).setEvents 0

theorem eq_ok_outcome {r : Except Conn Conn} (ok : r.isOk = true) : r = .ok (outcome r) := by
  cases r with
  | ok s => rfl
  | error s => cases ok

/-- The head of a request with one header line. -/
def RequestHead.ofLine (line : Bytes) (field : Bytes × Bytes) (whole : CR ∉ line)
    (plain : PlainField field) : RequestHead where
  line := line
  breaks := [LF]
  fields := [field]
  line_whole := whole
  breaks_only := by simp
  nonempty := List.cons_ne_nil _ _
  first := fun c first =>
    ((headerText_of_plain (List.cons_ne_nil field []) (by simpa using plain) []).first c first).1
  scannable := by simpa using plain.scannable
  whole := by simpa using fun member => (plain.valueBytes CR member).2 rfl

/-- A GET whose body is a request of its own. -/
def nestedHead : RequestHead :=
  .ofLine (bytes "GET /hello HTTP/1.1") (bytes "Content-Length", bytes "34") (by decide)
    ⟨by decide, by decide +kernel, by decide, by decide +kernel⟩

def nestedRequest : Bytes := nestedHead.text ++ bytes "GET /api/health HTTP/1.1\r\nA: b\r\n\r\n"

theorem nested_request_is_served :
    Receiving .bare (.reading nestedRequest) [nestedRequest] ∧
      nestedHead.text <+: nestedRequest ∧ declaredBy nestedHead.fields = some 34 ∧
      (readBlock .bare (.reading nestedRequest)).finished ∧
      ¬Framed 34 (behindBlank nestedRequest) (readBlock .bare (.reading nestedRequest)).http.inBuffer_ ∧
      (arrive .bare .sample (arrivalOf nestedRequest)).wire.calls.map (·.path) =
        [bytes "/api/health"] :=
  ⟨.begins ⟨rfl, rfl, rfl, rfl⟩, List.prefix_append _ _, by decide, by decide, by decide,
    by decide +kernel⟩

/-- A POST that declares two bytes and has them. -/
def chatHead : RequestHead :=
  .ofLine (bytes "POST /api/chat HTTP/1.1") (bytes "Content-Length", bytes "2") (by decide)
    ⟨by decide, by decide +kernel, by decide, by decide +kernel⟩

def chatRequest : Bytes := chatHead.text ++ bytes "hi"

theorem body_framing_iff_chatRequest :
    Framed 2 (behindBlank [chatRequest].flatten)
        (readBlock .bare (.reading chatRequest)).http.inBuffer_ ↔
      chatHead.method = some .post ∨ 2 = 0 :=
  body_framing_iff (.begins ⟨rfl, rfl, rfl, rfl⟩) (List.prefix_append _ _) (by decide) (by decide)
    (by decide) (by decide)

end LightAgent
