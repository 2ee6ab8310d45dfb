import LightAgent.HttpData.Alike

/-!
# What follows in the buffer

Each stage treats what it has been given alike whatever bytes follow it, and leaves
these in the buffer. So a handler given more input does what it did without it and
then goes on as if the rest had come afterwards (`handleRead_received`). The one
exception is a header scan stopped half way: its offsets are gone when it is resumed.
-/
namespace LightAgent

open Library

/-- The connection with bytes received behind what is buffered. -/
def Conn.received (s : Conn) (b : Bytes) : Conn := s.setHttp (s.http.received b)

@[simp] theorem Conn.received_nil (s : Conn) : s.received [] = s := by
  simp [Conn.received, Conn.setHttp]

@[simp] theorem Conn.received_received (s : Conn) (b c : Bytes) :
    (s.received b).received c = s.received (b ++ c) := by
  simp [Conn.received, Conn.setHttp]

/-- A connection between two requests, or waiting for the rest of one with no header
scan stopped half way. -/
structure HttpData.Resumable (h : HttpData) : Prop where
  state : h.state_ = .parseUri ∨ h.state_ = .parseHeaders ∨ h.state_ = .recvBody
  scan : h.state_ ≠ .recvBody → h.hState_ = .start
  posted : h.state_ = .recvBody → h.method_ = .post

/-- Nothing failed and the peer is there. -/
structure HttpData.Open (h : HttpData) : Prop where
  error_ : h.error_ = false
  connectionState_ : h.connectionState_ = .connected

/-! ### The parsing stages -/

/-- How a stage of the block treats bytes that follow: it goes on and leaves them, it
waits where it was, or it fails in the same way. -/
inductive Carries (stage : Conn → Except Conn Conn) (s : Conn) (b : Bytes) : Prop
  | goesOn (s' : Conn) : stage s = .ok s' → stage (s.received b) = .ok (s'.received b) →
      s'.wire = s.wire → s'.http.error_ = s.http.error_ → Carries stage s b
  | waits (s' : Conn) : stage s = .error s' → s'.wire = s.wire →
      s'.http.error_ = s.http.error_ → (s'.http.Resumable → s' = s) → Carries stage s b
  | fails (s' s'' : Conn) : stage s = .error s' → stage (s.received b) = .error s'' →
      s'.http.error_ = true → s''.http.error_ = true → s''.wire = s'.wire → Carries stage s b

theorem parseUriStage_skips {s : Conn} (past : s.http.state_ ≠ .parseUri) :
    parseUriStage s = .ok s := if_neg past

theorem parseHeadersStage_skips {w : World} {s : Conn} (past : s.http.state_ ≠ .parseHeaders) :
    parseHeadersStage w s = .ok s := if_neg past

theorem recvBodyStage_skips {s : Conn} (past : s.http.state_ ≠ .recvBody) :
    recvBodyStage s = .ok s := if_neg past

theorem parseUriStage_carries (s : Conn) (b : Bytes) : Carries parseUriStage s b := by
  by_cases state : s.http.state_ = .parseUri
  · have framed := s.http.parseURI_frame
    have later : (s.received b).http.state_ = .parseUri := state
    have more := HttpData.parseURI_received (h := s.http) (s := b)
    cases result : s.http.parseURI with
    | mk h flag =>
      rw [result] at more framed
      cases flag with
      | again =>
        have same : h = s.http := by
          rcases framed with stays | ⟨_, _, _, _, _, flag, waits, eq⟩
          · exact congrArg Prod.fst stays
          · exact absurd (congrArg Prod.snd eq).symm waits
        subst same
        exact .waits s (by unfold parseUriStage; rw [if_pos state, result]; rfl) rfl rfl fun _ => rfl
      | error =>
        refine .fails (handleError ((s.setHttp { h with inBuffer_ := [] }).setHttp
          { h with inBuffer_ := [], error_ := true }) 400 (bytes "Bad Request"))
          (handleError (((s.received b).setHttp { h with inBuffer_ := [] }).setHttp
          { h with inBuffer_ := [], error_ := true }) 400 (bytes "Bad Request")) ?_ ?_ rfl rfl rfl
        · unfold parseUriStage; rw [if_pos state, result]; rfl
        · unfold parseUriStage
          rw [if_pos later, show (s.received b).http.parseURI = _ from more nofun]; rfl
      | success =>
        refine .goesOn (s.setHttp { h with state_ := .parseHeaders }) ?_ ?_ rfl ?_
        · unfold parseUriStage; rw [if_pos state, result]
        · unfold parseUriStage
          rw [if_pos later, show (s.received b).http.parseURI = _ from more nofun]; rfl
        · rcases framed with stays | ⟨_, _, _, _, _, flag, _, eq⟩
          · exact absurd (congrArg Prod.snd stays) nofun
          · obtain ⟨rfl, _⟩ := Prod.mk.inj eq; rfl
  · exact .goesOn s (parseUriStage_skips state) (parseUriStage_skips state) rfl rfl

theorem parseHeadersStage_carries (w : World) (s : Conn) (b : Bytes)
    (small : s.http.inBuffer_.length < 2 ^ 31)
    (fresh : s.http.state_ = .parseHeaders → s.http.hState_ = .start) :
    Carries (parseHeadersStage w) s b := by
  by_cases state : s.http.state_ = .parseHeaders
  · have later : (s.received b).http.state_ = .parseHeaders := state
    have framed := s.http.parseHeaders_frame w.outside
    have more := HttpData.parseHeaders_received w.outside (fresh state) small (s := b)
    have still := HttpData.parseHeaders_start w.outside (h := s.http)
    cases result : s.http.parseHeaders w.outside with
    | mk h flag =>
      rw [result] at more framed still
      obtain ⟨hState, headers, inBuffer, _, eq⟩ := framed
      dsimp only at eq
      cases flag with
      | again =>
        refine .waits (s.setHttp h) (by unfold parseHeadersStage; rw [if_pos state, result]) rfl
          (by rw [eq]; rfl) fun resumable => ?_
        have scan : h.hState_ = .start := resumable.scan (by rw [eq]; simp [Conn.setHttp, state])
        rw [show h = s.http from still rfl scan]; rfl
      | thrown =>
        exact absurd (congrArg Prod.snd result)
          (HttpData.parseHeaders_returns w.outside (Nat.le_of_lt small))
      | error =>
        refine .fails (handleError ((s.setHttp h).setHttp { h with error_ := true }) 400
          (bytes "Bad Request")) (handleError (((s.received b).setHttp (h.received b)).setHttp
          { h.received b with error_ := true }) 400 (bytes "Bad Request")) ?_ ?_ rfl rfl rfl
        · unfold parseHeadersStage; rw [if_pos state, result]; rfl
        · unfold parseHeadersStage
          rw [if_pos later, show (s.received b).http.parseHeaders _ = _ from more nofun]; rfl
      | success =>
        have left : parseHeadersStage w s = if h.method_ = .post then
            .ok (s.setHttp { h with state_ := .recvBody })
            else .ok (s.setHttp { h with state_ := .analysis }) := by
          unfold parseHeadersStage; rw [if_pos state, result]
        have right : parseHeadersStage w (s.received b) = if h.method_ = .post then
            .ok ((s.setHttp { h with state_ := .recvBody }).received b)
            else .ok ((s.setHttp { h with state_ := .analysis }).received b) := by
          unfold parseHeadersStage
          rw [if_pos later, show (s.received b).http.parseHeaders _ = _ from more nofun]; rfl
        have error : h.error_ = s.http.error_ := by rw [eq]
        by_cases post : h.method_ = .post
        · rw [if_pos post] at left right
          exact .goesOn _ left right rfl error
        · rw [if_neg post] at left right
          exact .goesOn _ left right rfl error
  · exact .goesOn s (parseHeadersStage_skips state) (parseHeadersStage_skips state) rfl rfl

theorem recvBodyStage_carries (s : Conn) (b : Bytes)
    (small : (s.http.inBuffer_ ++ b).length < 2 ^ 31) : Carries recvBodyStage s b := by
  by_cases state : s.http.state_ = .recvBody
  · have later : (s.received b).http.state_ = .recvBody := state
    have same : (s.received b).http.getContentLength = s.http.getContentLength := rfl
    cases length : s.http.getContentLength with
    | none =>
      let msg := bytes "Bad Request: Lack of argument (Content-length)"
      refine .fails (handleError (s.setHttp { s.http with error_ := true }) 400 msg)
        (handleError ((s.received b).setHttp { (s.received b).http with error_ := true }) 400 msg)
        ?_ ?_ rfl rfl rfl
      · unfold recvBodyStage; rw [if_pos state, length]; rfl
      · unfold recvBodyStage; rw [if_pos later, same, length]; rfl
    | some n =>
      have narrow : toInt s.http.inBuffer_.length = s.http.inBuffer_.length :=
        toInt_of_lt (by rw [List.length_append] at small; omega)
      have narrow' : toInt (s.received b).http.inBuffer_.length =
        (s.http.inBuffer_ ++ b).length := toInt_of_lt small
      -- More bytes never make the buffer too short for the body.
      by_cases short : toInt s.http.inBuffer_.length < n
      · exact .waits s (by unfold recvBodyStage; rw [if_pos state, length]; dsimp only; rw [if_pos short])
          rfl rfl fun _ => rfl
      · have enough : ¬ toInt (s.received b).http.inBuffer_.length < n := by
          rw [narrow', List.length_append]
          rw [narrow] at short
          omega
        refine .goesOn (s.setHttp { s.http with state_ := .analysis }) ?_ ?_ rfl rfl
        · unfold recvBodyStage; rw [if_pos state, length]; dsimp only; rw [if_neg short]
        · unfold recvBodyStage; rw [if_pos later, same, length]; dsimp only; rw [if_neg enough]; rfl
  · exact .goesOn s (recvBodyStage_skips state) (recvBodyStage_skips state) rfl rfl

/-! ### All the parsing -/

/-- Where a connection can stand between two events. -/
structure HttpData.Between (h : HttpData) : Prop where
  state : h.state_ = .parseUri ∨ h.state_ = .parseHeaders ∨ h.state_ = .recvBody
  fresh : h.state_ = .parseUri → h.hState_ = .start
  posted : h.state_ = .recvBody → h.method_ = .post

/-- No header scan is stopped half way. -/
def HttpData.ScansWhole (h : HttpData) : Prop := h.state_ = .parseHeaders → h.hState_ = .start

instance (h : HttpData) : Decidable h.ScansWhole := inferInstanceAs (Decidable (_ → _))

theorem HttpData.Between.resumable {h : HttpData} (between : h.Between) (whole : h.ScansWhole) :
    h.Resumable := by
  refine ⟨between.state, fun notBody => ?_, between.posted⟩
  rcases between.state with state | state | state
  · exact between.fresh state
  · exact whole state
  · contradiction

theorem HttpData.Resumable.between {h : HttpData} (resumable : h.Resumable) : h.Between :=
  ⟨resumable.state, fun line => resumable.scan (by rw [line]; decide), resumable.posted⟩

/-- A request that is complete: its body is in the buffer, if it has to have one. -/
structure HttpData.Ready (h : HttpData) : Prop where
  state : h.state_ = .analysis
  body : h.method_ = .post →
    ∃ n : Nat, h.getContentLength = some n ∧ (n : Int) ≤ toInt h.inBuffer_.length

theorem parseUriStage_ok {s s' : Conn} (done : parseUriStage s = .ok s') :
    (s.http.state_ ≠ .parseUri ∧ s' = s) ∨
      (s.http.state_ = .parseUri ∧ s'.http.state_ = .parseHeaders ∧
        s'.http.hState_ = s.http.hState_) := by
  unfold parseUriStage at done
  split at done
  next state =>
    refine .inr ⟨state, ?_⟩
    -- Of the three results only success falls through.
    rcases s.http.parseURI_frame with waits | ⟨_, _, _, _, _, flag, _, eq⟩
    · rw [waits] at done; cases done
    · rw [eq] at done
      cases flag <;> cases done
      exact ⟨rfl, rfl⟩
  next state => cases done; exact .inl ⟨state, rfl⟩

theorem parseHeadersStage_ok {w : World} {s s' : Conn} (done : parseHeadersStage w s = .ok s') :
    (s.http.state_ ≠ .parseHeaders ∧ s' = s) ∨
      (s.http.state_ = .parseHeaders ∧
        ((s'.http.state_ = .recvBody ∧ s'.http.method_ = .post) ∨
          (s'.http.state_ = .analysis ∧ s'.http.method_ ≠ .post))) := by
  unfold parseHeadersStage at done
  split at done
  next state =>
    refine .inr ⟨state, ?_⟩
    -- A POST goes to its body, the others to the analysis.
    split at done
    · cases done
    · cases done
    · cases done
    · split at done
      next post => cases done; exact .inl ⟨rfl, post⟩
      next post => cases done; exact .inr ⟨rfl, post⟩
  next state => cases done; exact .inl ⟨state, rfl⟩

theorem recvBodyStage_ok {s s' : Conn} (done : recvBodyStage s = .ok s') :
    (s.http.state_ ≠ .recvBody ∧ s' = s) ∨ (s.http.state_ = .recvBody ∧ s'.http.Ready) := by
  unfold recvBodyStage at done
  split at done
  next state =>
    refine .inr ⟨state, ?_⟩
    split at done
    · cases done
    next n length =>
      split at done
      · cases done
      next enough =>
        cases done
        exact ⟨rfl, fun _ => ⟨n, length, Int.not_lt.mp enough⟩⟩
  next state => cases done; exact .inl ⟨state, rfl⟩

/-- A request that goes through all the parsing is complete. -/
theorem parseStages_ready {w : World} {s s' : Conn} (between : s.http.Between)
    (done : parseStages w s = .ok s') : s'.http.Ready := by
  obtain ⟨s₁, s₂, line, block, body⟩ := parseStages_eq_ok.mp done
  have ended : s₂.http.state_ = .recvBody ∨
      (s₂.http.state_ = .analysis ∧ s₂.http.method_ ≠ .post) := by
    rcases parseHeadersStage_ok block with ⟨passed, rfl⟩ | ⟨_, ⟨body, _⟩ | now⟩
    · -- Both stages were passed before, so only the body can have been missing.
      rcases parseUriStage_ok line with ⟨_, rfl⟩ | ⟨_, headers, _⟩
      · rcases between.state with state | state | state
        · contradiction
        · contradiction
        · exact .inl state
      · contradiction
    · exact .inl body
    · exact .inr now
  rcases recvBodyStage_ok body with ⟨other, rfl⟩ | ⟨_, ready⟩
  · rcases ended with body | ⟨now, nobody⟩
    · contradiction
    · exact ⟨now, fun post => absurd post nobody⟩
  · exact ready

theorem parseUriStage_error {s s' : Conn} (stops : parseUriStage s = .error s')
    (alive : s'.http.error_ = false) : s.http.state_ = .parseUri ∧ s' = s := by
  unfold parseUriStage at stops
  split at stops
  next state =>
    refine ⟨state, ?_⟩
    rcases s.http.parseURI_frame with waits | ⟨_, _, _, _, _, flag, no, eq⟩
    · rw [waits] at stops; cases stops; rfl
    · rw [eq] at stops
      -- A refused line sets `error_`.
      cases flag with
      | again => contradiction
      | error => cases stops; cases alive
      | success => cases stops
  next => cases stops

theorem parseHeadersStage_error {w : World} {s s' : Conn}
    (stops : parseHeadersStage w s = .error s') (alive : s'.http.error_ = false) :
    s'.http.state_ = .parseHeaders := by
  unfold parseHeadersStage at stops
  split at stops
  next state =>
    obtain ⟨_, _, _, _, eq⟩ := s.http.parseHeaders_frame w.outside
    cases result : s.http.parseHeaders w.outside with
    | mk h flag =>
      rw [result] at stops eq
      -- To ask for more keeps the state; to refuse sets `error_`.
      cases flag with
      | again => cases stops; exact (congrArg HttpData.state_ eq).trans state
      | thrown => cases stops; exact (congrArg HttpData.state_ eq).trans state
      | error => cases stops; cases alive
      | success => dsimp only at stops; split at stops <;> cases stops
  next => cases stops

theorem recvBodyStage_error {s s' : Conn} (stops : recvBodyStage s = .error s')
    (alive : s'.http.error_ = false) : s.http.state_ = .recvBody ∧ s' = s := by
  unfold recvBodyStage at stops
  split at stops
  next state =>
    refine ⟨state, ?_⟩
    split at stops
    · cases stops; cases alive
    · split at stops
      · cases stops; rfl
      · cases stops
  next => cases stops

theorem parseStages_waits {w : World} {s s' : Conn} (between : s.http.Between)
    (stops : parseStages w s = .error s') (alive : s'.http.error_ = false) : s'.http.Between := by
  rcases bind_eq_error.mp stops with line | ⟨s₁, line, stops⟩
  · obtain ⟨_, rfl⟩ := parseUriStage_error line alive
    exact between
  rcases bind_eq_error.mp stops with block | ⟨s₂, block, stops⟩
  · have state := parseHeadersStage_error block alive
    exact ⟨.inr (.inl state), fun line => (nomatch state.symm.trans line),
      fun body => nomatch state.symm.trans body⟩
  · obtain ⟨state, rfl⟩ := recvBodyStage_error (s := s₂) stops alive
    refine ⟨.inr (.inr state), fun line => (nomatch state.symm.trans line), fun _ => ?_⟩
    -- Only a POST gets to its body, in this activation or an earlier one.
    rcases parseHeadersStage_ok block with ⟨_, rfl⟩ | ⟨_, ⟨_, post⟩ | ⟨other, _⟩⟩
    · rcases parseUriStage_ok line with ⟨_, rfl⟩ | ⟨_, headers, _⟩
      · exact between.posted state
      · rw [state] at headers; cases headers
    · exact post
    · rw [state] at other; cases other

/-- How all the parsing treats bytes that follow. Where it waits, it can as well be
resumed with them. -/
inductive Resumes (w : World) (s : Conn) (b : Bytes) : Prop
  | goesOn (s' : Conn) : parseStages w s = .ok s' →
      parseStages w (s.received b) = .ok (s'.received b) → s'.wire = s.wire →
      s'.http.error_ = s.http.error_ → Resumes w s b
  | waits (s' : Conn) : parseStages w s = .error s' → s'.wire = s.wire →
      s'.http.error_ = s.http.error_ → (s'.http.Resumable →
        parseStages w (s.received b) = parseStages w (s'.received b)) → Resumes w s b
  | fails (s' s'' : Conn) : parseStages w s = .error s' →
      parseStages w (s.received b) = .error s'' →
      s'.http.error_ = true → s''.http.error_ = true → s''.wire = s'.wire → Resumes w s b

theorem Parsed.frame {s s' : Conn} (parsed : Parsed s (.ok s')) : ParseFrame s.http s'.http := by
  obtain ⟨h, rfl, frame, _⟩ := parsed.of_ok
  exact frame

theorem Parsed.fits {s s' : Conn} (parsed : Parsed s (.ok s')) {b : Bytes}
    (small : (s.http.inBuffer_ ++ b).length < 2 ^ 31) :
    (s'.http.inBuffer_ ++ b).length < 2 ^ 31 := by
  have shorter := parsed.frame.inBuffer_.length_le
  rw [List.length_append] at small ⊢
  omega

theorem parseStages_resumes (w : World) {s : Conn} {b : Bytes} (resumable : s.http.Resumable)
    (small : (s.http.inBuffer_ ++ b).length < 2 ^ 31) : Resumes w s b := by
  have stages (t : Conn) : parseStages w t = (parseUriStage t).bind fun t =>
    (parseHeadersStage w t).bind recvBodyStage := rfl
  -- Each stage carries over to the longer input, or stops where the more input makes it resume.
  cases parseUriStage_carries s b with
  | fails s' s'' left right failed failed' wire =>
    exact .fails s' s'' (by rw [stages, left]; rfl) (by rw [stages, right]; rfl) failed failed' wire
  | waits s' left wire error same =>
    exact .waits s' (by rw [stages, left]; rfl) wire error fun resumable => by rw [same resumable]
  | goesOn s₁ left₁ right₁ wire₁ error₁ =>
    have small₁ := (left₁ ▸ parseUriStage_parsed s).fits small
    have past : s₁.http.state_ ≠ .parseUri := by
      rcases parseUriStage_ok left₁ with ⟨other, rfl⟩ | ⟨_, headers, _⟩
      · exact other
      · rw [headers]; decide
    -- A scan of headers begins here, or goes on where one was left at the start of a line.
    have fresh : s₁.http.state_ = .parseHeaders → s₁.http.hState_ = .start := by
      intro headers
      rcases parseUriStage_ok left₁ with ⟨_, rfl⟩ | ⟨line, _, kept⟩
      · exact resumable.scan (by rw [headers]; decide)
      · exact kept.trans (resumable.scan (by rw [line]; decide))
    -- Resumed after this stage, the parser skips it.
    have from₁ : parseStages w (s₁.received b) =
        (parseHeadersStage w (s₁.received b)).bind recvBodyStage := by
      rw [stages, parseUriStage_skips (s := s₁.received b) past]; rfl
    have first : parseStages w s = (parseHeadersStage w s₁).bind recvBodyStage := by
      rw [stages, left₁]; rfl
    have first' : parseStages w (s.received b) =
        (parseHeadersStage w (s₁.received b)).bind recvBodyStage := by
      rw [stages, right₁]; rfl
    cases parseHeadersStage_carries w s₁ b
        (by rw [List.length_append] at small₁; omega) fresh with
    | fails s' s'' left right failed failed' wire =>
      exact .fails s' s'' (by rw [first, left]; rfl) (by rw [first', right]; rfl) failed failed' wire
    | waits s' left wire error same =>
      refine .waits s' (by rw [first, left]; rfl) (wire.trans wire₁) (error.trans error₁) ?_
      intro resumable
      rw [same resumable, first', from₁]
    | goesOn s₂ left₂ right₂ wire₂ error₂ =>
      have small₂ := (left₂ ▸ parseHeadersStage_parsed w s₁).fits small₁
      have past₂ : s₂.http.state_ ≠ .parseUri ∧ s₂.http.state_ ≠ .parseHeaders := by
        rcases parseHeadersStage_ok left₂ with ⟨other, rfl⟩ | ⟨_, ⟨state, _⟩ | ⟨state, _⟩⟩
        · exact ⟨past, other⟩
        · rw [state]; decide
        · rw [state]; decide
      have from₂ : parseStages w (s₂.received b) = recvBodyStage (s₂.received b) := by
        rw [stages, parseUriStage_skips (s := s₂.received b) past₂.1]
        change (parseHeadersStage w (s₂.received b)).bind recvBodyStage = _
        rw [parseHeadersStage_skips (s := s₂.received b) past₂.2]; rfl
      have second : parseStages w s = recvBodyStage s₂ := by rw [first, left₂]; rfl
      have second' : parseStages w (s.received b) = recvBodyStage (s₂.received b) := by
        rw [first', right₂]; rfl
      cases recvBodyStage_carries s₂ b small₂ with
      | fails s' s'' left right failed failed' wire =>
        exact .fails s' s'' (second.trans left) (second'.trans right) failed failed' wire
      | waits s' left wire error same =>
        refine .waits s' (second.trans left) (wire.trans (wire₂.trans wire₁))
          (error.trans (error₂.trans error₁)) ?_
        intro resumable
        rw [same resumable, second', from₂]
      | goesOn s₃ left₃ right₃ wire₃ error₃ =>
        exact .goesOn s₃ (second.trans left₃) (second'.trans right₃)
          (wire₃.trans (wire₂.trans wire₁)) (error₃.trans (error₂.trans error₁))

/-! ### Answering -/

theorem answerApiRequest_received (view : LightAgentGateway.View) (s : Conn) (b : Bytes)
    {contentLength : Option Nat} (within : ∀ n ∈ contentLength, n ≤ s.http.inBuffer_.length)
    (body : Bytes) : answerApiRequest view (s.received b) contentLength body =
      ((answerApiRequest view s contentLength body).1.received b,
        (answerApiRequest view s contentLength body).2) := by
  unfold answerApiRequest
  dsimp only [Conn.received, Conn.setHttp, HttpData.received]
  cases contentLength with
  | none =>
    cases LightAgentGateway.handle view
      ⟨toGatewayMethod s.http.method_, bytes "/" ++ s.http.fileName_, body⟩ <;> rfl
  | some n =>
    dsimp only
    -- The body lies within the old bytes, so the new ones stay behind it.
    rw [List.drop_append_of_le_length (within n rfl)]
    cases LightAgentGateway.handle view
      ⟨toGatewayMethod s.http.method_, bytes "/" ++ s.http.fileName_, body⟩ <;> rfl

theorem analysisApiRequest_received (view : LightAgentGateway.View) {s : Conn} {b : Bytes}
    (ready : s.http.Ready) (small : (s.http.inBuffer_ ++ b).length < 2 ^ 31) :
    analysisApiRequest view (s.received b) =
      ((analysisApiRequest view s).1.received b, (analysisApiRequest view s).2) := by
  -- Only a POST has a body, and all of it was there before.
  by_cases post : s.http.method_ = .post
  · obtain ⟨n, length, enough⟩ := ready.body post
    have within := toInt_nonneg_le enough
    have enough' : (n : Int) ≤ toInt (s.http.inBuffer_ ++ b).length := by
      rw [toInt_of_lt small, List.length_append]; omega
    have delimits (t : Conn) (posted : t.http.method_ = .post)
        (same : t.http.getContentLength = some n) (all : (n : Int) ≤ toInt t.http.inBuffer_.length) :
        analysisApiRequest view t = answerApiRequest view t (some n) (t.http.inBuffer_.take n) := by
      unfold analysisApiRequest
      rw [if_pos posted, same]
      exact if_neg (Int.not_lt.mpr all)
    rw [delimits s post length enough, delimits (s.received b) post length enough']
    have body : (s.received b).http.inBuffer_.take n = s.http.inBuffer_.take n :=
      List.take_append_of_le_length within
    rw [body]
    exact answerApiRequest_received view s b (fun m member => by cases member; exact within) _
  · have bodiless (t : Conn) (same : t.http.method_ = s.http.method_) :
        analysisApiRequest view t = answerApiRequest view t none [] := by
      unfold analysisApiRequest
      rw [if_neg (same ▸ post)]
    rw [bodiless s rfl, bodiless (s.received b) rfl]
    exact answerApiRequest_received view s b (fun n member => by cases member) _

theorem analysisStaticRequest_received (fs : Bytes → Option FileStat) (s : Conn) (b : Bytes) :
    analysisStaticRequest fs (s.received b) =
      ((analysisStaticRequest fs s).1.received b, (analysisStaticRequest fs s).2) := by
  have kept : (s.received b).http.isKeepAliveRequested = s.http.isKeepAliveRequested := rfl
  unfold analysisStaticRequest notFound
  rw [kept]
  dsimp only [Conn.received, Conn.setHttp, HttpData.received]
  repeat' split
  all_goals rfl

theorem analysisRequest_received (w : World) {s : Conn} {b : Bytes} (ready : s.http.Ready)
    (small : (s.http.inBuffer_ ++ b).length < 2 ^ 31) :
    analysisRequest w (s.received b) =
      ((analysisRequest w s).1.received b, (analysisRequest w s).2) := by
  have counted := analysisApiRequest_received (w.gateway s.wire.served)
    (s := { s with wire := { s.wire with served := s.wire.served + 1 } }) ready small
  have static := analysisStaticRequest_received (w.fs s.wire.served)
    { s with wire := { s.wire with served := s.wire.served + 1 } } b
  unfold analysisRequest
  dsimp only [Conn.received, Conn.setHttp, HttpData.received] at counted static ⊢
  repeat' split
  · exact counted
  · rfl
  · exact static
  · exact static

/-- The answer to a complete request does not depend on what follows it, and leaves it. -/
theorem analyse_received (w : World) {s : Conn} {b : Bytes} (ready : s.http.Ready)
    (small : (s.http.inBuffer_ ++ b).length < 2 ^ 31) :
    analyse w (s.received b) = (analyse w s).received b := by
  unfold analyse
  rw [analysisRequest_received w ready small]
  cases analysisRequest w s with
  | mk s' flag => cases flag <;> rfl

/-! ### A whole handler -/

/-- The outcome of a round given more input: the same with the rest left over, the same
failure, or the round can be resumed with the rest. -/
inductive RoundCarries (w : World) (s : Conn) (b : Bytes) : Prop
  | finishes (s' : Conn) : readBlock w s = s' → readBlock w (s.received b) = s'.received b →
      s'.http.Open → s'.http.state_ = .finish → s'.wire.reads = [] → RoundCarries w s b
  | waits (s' : Conn) : readBlock w s = s' → s'.http.Open → s'.http.Between →
      s'.http.outBuffer_ = s.http.outBuffer_ → s'.wire = s.wire →
      (s'.http.ScansWhole → readBlock w (s.received b) = readBlock w (s'.received b)) →
      RoundCarries w s b
  | fails (s' s'' : Conn) : readBlock w s = s' → readBlock w (s.received b) = s'' →
      s'.http.error_ = true → s''.http.error_ = true → s''.wire = s'.wire → RoundCarries w s b

theorem analyse_finishes (w : World) {s : Conn} (here : s.http.Open) :
    ((analyse w s).http.Open ∧ (analyse w s).http.state_ = .finish) ∨
      (analyse w s).http.error_ = true := by
  obtain ⟨⟨_, _, _, _, http⟩, _, _⟩ := analysisRequest_frame w s
  rcases analyse_cases w s with ⟨_, done⟩ | ⟨_, done⟩
  · rw [done]
    refine .inl ⟨⟨?_, ?_⟩, rfl⟩
    · exact (congrArg HttpData.error_ http).trans here.error_
    · exact (congrArg HttpData.connectionState_ http).trans here.connectionState_
  · rw [done]
    exact .inr rfl

theorem analyse_reads (w : World) (s : Conn) : (analyse w s).wire.reads = s.wire.reads := by
  obtain ⟨_, ⟨_, _, _, _, wire⟩, _⟩ := analysisRequest_frame w s
  have reads : (analysisRequest w s).1.wire.reads = s.wire.reads := by rw [wire]
  rcases analyse_cases w s with ⟨_, done⟩ | ⟨_, done⟩
  · rw [done]
    exact reads
  · rw [done]
    exact reads

theorem readBlock_carries (w : World) {s : Conn} {b : Bytes} (quiet : s.wire.reads = [])
    (resumable : s.http.Resumable) (here : s.http.Open)
    (small : (s.http.inBuffer_ ++ b).length < 2 ^ 31) : RoundCarries w s b := by
  have connected : s.http.connectionState_ ≠ .disconnecting := by
    rw [here.connectionState_]; decide
  have stages (t : Conn) (quiet : t.wire.reads = [])
      (connected : t.http.connectionState_ ≠ .disconnecting) :
      readBlock w t = endBlock w (parseStages w t) := by
    unfold readBlock toAnalysis
    rw [readStage_quiet quiet, if_neg connected]; rfl
  -- With nothing to read the block parses what is in the buffer.
  have left := stages s quiet connected
  have right := stages (s.received b) quiet connected
  have parsed := parseStages_parsed w s
  cases parseStages_resumes w resumable small with
  | goesOn s' done done' wire error =>
    have ready := parseStages_ready resumable.between done
    have small' := (done ▸ parsed).fits small
    rw [done] at left
    rw [done'] at right
    have now : endBlock w (.ok s') = analyse w s' := if_pos ready.state
    have now' : endBlock w (.ok (s'.received b)) = (analyse w s').received b :=
      (if_pos ready.state).trans (analyse_received w ready small')
    rw [now] at left
    rw [now'] at right
    have opened : s'.http.Open := ⟨error.trans here.error_,
      (done ▸ parsed).frame.connectionState_.trans here.connectionState_⟩
    -- The request is answered out of what both have parsed, and the rest stays behind.
    rcases analyse_finishes w opened with ⟨opened', state⟩ | failed
    · exact .finishes _ left right opened' state ((analyse_reads w s').trans (wire ▸ quiet))
    · exact .fails _ _ left right failed failed rfl
  | waits s' stops wire error resumes =>
    rw [stops] at left parsed
    have alive : s'.http.error_ = false := error.trans here.error_
    have frame : ParseFrame s.http s'.http := by
      rcases parsed.of_error with ⟨h, frame, ⟨rfl, _, _⟩ | ⟨msg, rfl, failed⟩⟩
      · exact frame
      · exact absurd (failed.symm.trans alive) nofun
    have between := parseStages_waits resumable.between stops alive
    have opened : s'.http.Open :=
      ⟨alive, frame.connectionState_.trans here.connectionState_⟩
    -- Where the request is incomplete the parser resumes with what comes later.
    refine .waits s' left opened between frame.outBuffer_ wire fun whole => ?_
    rw [right, resumes (between.resumable whole)]
    refine (stages (s'.received b) (wire ▸ quiet) ?_).symm
    exact frame.connectionState_ ▸ connected
  | fails s' s'' stops stops' failed failed' wire =>
    rw [stops] at left
    rw [stops'] at right
    exact .fails s' s'' left right failed failed' wire

theorem handleWrite_received (s : Conn) (b : Bytes) :
    handleWrite (s.received b) = (handleWrite s).received b := by
  unfold handleWrite
  change (if (!s.http.error_) = true ∧ s.http.connectionState_ ≠ .disconnected then _ else _) = _
  split <;> rfl

theorem flush_received (s : Conn) (b : Bytes) : flush (s.received b) = (flush s).received b := by
  have error : (s.received b).http.error_ = s.http.error_ := rfl
  have output : (s.received b).http.outBuffer_ = s.http.outBuffer_ := rfl
  unfold flush
  rw [error, output]
  repeat' split
  · rfl
  · exact handleWrite_received s b
  · rfl

theorem seperateTimer_received (s : Conn) (b : Bytes) :
    seperateTimer (s.received b) = (seperateTimer s).received b := by
  have locks : (s.received b).timerLocks = s.timerLocks := rfl
  unfold seperateTimer
  rw [locks]
  cases s.timerLocks <;> rfl

theorem reset_received (s : Conn) (b : Bytes) : reset (s.received b) = (reset s).received b :=
  seperateTimer_received (s.setHttp { s.http with
    fileName_ := [], nowReadPos_ := 0, state_ := .parseUri, hState_ := .start,
    headers_ := .empty }) b

theorem Alike.received {s t : Conn} (alike : Alike s t) (b : Bytes) :
    Alike (s.received b) (t.received b) := by
  obtain ⟨channel, timer, http⟩ := alike.http
  exact alike.setHttp (by rw [http]; rfl)

/-- A connection as an event finds it: nothing failed, the peer is there and has taken
all output so far. -/
structure Settled (s : Conn) : Prop where
  quiet : Quiet s.wire
  here : s.http.Open
  output : s.http.outBuffer_ = []
  between : s.http.Between

/-- A handler failed after the same output and the same calls. -/
structure FailsAlike (s t : Conn) : Prop where
  left : s.http.error_ = true
  right : t.http.error_ = true
  sent : t.wire.sent = s.wire.sent
  calls : t.wire.calls = s.wire.calls

theorem Settled.received {s : Conn} (settled : Settled s) (b : Bytes) :
    Settled (s.received b) :=
  ⟨settled.quiet, ⟨settled.here.error_, settled.here.connectionState_⟩, settled.output,
    ⟨settled.between.state, settled.between.fresh, settled.between.posted⟩⟩

theorem reset_http (s : Conn) : ∃ timer, (reset s).http = { s.http with
    fileName_ := [], nowReadPos_ := 0, state_ := .parseUri, hState_ := .start,
    headers_ := .empty, timer_ := timer } :=
  seperateTimer_http (s.setHttp { s.http with
    fileName_ := [], nowReadPos_ := 0, state_ := .parseUri, hState_ := .start,
    headers_ := .empty })

theorem reset_wire (s : Conn) : (reset s).wire = s.wire := seperateTimer_wire _

theorem reset_settled {s : Conn} (quiet : Quiet s.wire) (here : s.http.Open)
    (output : s.http.outBuffer_ = []) : Settled (reset s) ∧ (reset s).http.ScansWhole := by
  obtain ⟨timer, http⟩ := reset_http s
  refine ⟨⟨(reset_alike (.refl quiet)).right, ?_, ?_, ?_⟩, ?_⟩
  all_goals rw [http]
  · exact ⟨here.error_, here.connectionState_⟩
  · exact output
  · exact ⟨.inl rfl, fun _ => rfl, nofun⟩
  · exact nofun

theorem handleRead_failed {w : World} {s : Conn} (failed : (readBlock w s).http.error_ = true) :
    handleRead w s = readBlock w s := by
  have stays : flush (readBlock w s) = readBlock w s := if_pos failed
  have stopped : ¬ (readBlock w s).finished := fun h => nomatch failed.symm.trans h.1
  have unarmed : rearm (readBlock w s) = readBlock w s := by simp [rearm, failed]
  rw [handleRead_eq]
  dsimp only
  rw [stays, if_neg stopped, unarmed]

theorem handleRead_waits {w : World} {s : Conn} (between : (readBlock w s).http.Between)
    (output : (readBlock w s).http.outBuffer_ = []) :
    handleRead w s = rearm (readBlock w s) := by
  -- A connection between its stages has not finished its request.
  have stopped : ¬ (readBlock w s).finished := by
    intro h
    rcases between.state with state | state | state
    all_goals exact nomatch state.symm.trans h.2
  rw [handleRead_eq]
  dsimp only
  rw [flush_empty output, if_neg stopped]

theorem handleRead_finishes {w : World} {s : Conn} (done : (flush (readBlock w s)).finished) :
    handleRead w s =
      let r := reset (flush (readBlock w s))
      if r.continues then handleRead w r else r := by
  rw [handleRead_eq]
  dsimp only
  rw [if_pos done]

theorem flush_settled {s : Conn} (reads : s.wire.reads = []) (free : Unblocked s.wire.writes)
    (here : s.http.Open) :
    Quiet (flush s).wire ∧ (flush s).http.Open ∧ (flush s).http.outBuffer_ = [] ∧
      (flush s).http.state_ = s.http.state_ := by
  have connected : s.http.connectionState_ ≠ .disconnected := by
    rw [here.connectionState_]; decide
  obtain ⟨rest, free', drains⟩ := handleWrite_unblocked free here.error_ connected
  unfold flush
  rw [if_neg (by rw [here.error_]; decide), drains]
  split
  · exact ⟨⟨reads, free'⟩, ⟨here.error_, here.connectionState_⟩, rfl, rfl⟩
  next empty => exact ⟨⟨reads, free⟩, here, by simpa using empty, rfl⟩

theorem Conn.input_quiet {s : Conn} (quiet : s.wire.reads = []) :
    s.input = s.http.inBuffer_.length := by
  unfold Conn.input
  rw [quiet]; rfl

/-- With nothing buffered between two requests, there is nothing to do. -/
theorem readBlock_idle {w : World} {s : Conn} (settled : Settled s)
    (state : s.http.state_ = .parseUri) (empty : s.http.inBuffer_ = []) : readBlock w s = s := by
  -- With nothing buffered the line is asked for again.
  have waits : s.http.parseURI = (s.http, .again) := by
    unfold HttpData.parseURI
    rw [empty]
    simp [findFrom, find]
  have connected : s.http.connectionState_ ≠ .disconnecting := by
    rw [settled.here.connectionState_]; decide
  unfold readBlock toAnalysis
  rw [readStage_quiet settled.quiet.reads, if_neg connected]
  change endBlock w ((parseUriStage s).bind _) = s
  unfold parseUriStage
  rw [if_pos state, waits]
  rfl

theorem handleRead_idle {w : World} {s : Conn} (settled : Settled s)
    (state : s.http.state_ = .parseUri) (empty : s.http.inBuffer_ = []) :
    Alike s (handleRead w s) := by
  have block : readBlock w s = s := readBlock_idle settled state empty
  have stays := handleRead_waits (w := w) (s := s) (block.symm ▸ settled.between)
    (block.symm ▸ settled.output)
  rw [stays, block]
  exact rearm_alike settled.quiet

/-- A handler that is given more input does what it did without it, and goes on as if
the rest had come in a later event; a failure stays what it was. -/
theorem handleRead_received (w : World) {s : Conn} {b : Bytes} (settled : Settled s)
    (whole : s.http.ScansWhole) (small : (s.http.inBuffer_ ++ b).length < 2 ^ 31) :
    FailsAlike (handleRead w s) (handleRead w (s.received b)) ∨
      (Settled (handleRead w s) ∧ ((handleRead w s).http.ScansWhole →
        Alike (handleRead w (s.received b)) (handleRead w ((handleRead w s).received b)))) := by
  -- On the requests that are left: each round that ends with an answer uses up input.
  induction bound : s.depth using Nat.strong_induction_on generalizing s with
  | _ depth ih =>
    have resumable := settled.between.resumable whole
    have free : Unblocked (readBlock w s).wire.writes :=
      (readBlock_alike w (.refl settled.quiet)).right.writes
    cases readBlock_carries w settled.quiet.reads resumable settled.here small with
    | fails s' s'' left right failed failed' wire =>
      rw [handleRead_failed (left ▸ failed), handleRead_failed (right ▸ failed'), left, right]
      exact .inl ⟨failed, failed', by rw [wire], by rw [wire]⟩
    | waits s' left here between output wire resumes =>
      subst left
      have quiet : Quiet (readBlock w s).wire := wire ▸ settled.quiet
      have rearmed := rearm_alike quiet
      -- The handler waits for input, and what it did so far touches nothing the parser reads.
      rw [handleRead_waits between (output.trans settled.output)]
      obtain ⟨channel, timer, http⟩ := rearmed.http
      refine .inr ⟨⟨rearmed.right, ?_, ?_, ?_⟩, fun whole => ?_⟩
      · rw [http]; exact ⟨here.error_, here.connectionState_⟩
      · rw [http]; exact output.trans settled.output
      · rw [http]; exact ⟨between.state, between.fresh, between.posted⟩
      · rw [http] at whole
        have same : handleRead w (s.received b) = handleRead w ((readBlock w s).received b) := by
          rw [handleRead_eq, handleRead_eq w ((readBlock w s).received b), resumes whole]
        rw [same]
        exact handleRead_alike w (rearmed.received b)
    | finishes s' left right here state reads =>
      subst left
      obtain ⟨quiet, here', output, state'⟩ := flush_settled reads free here
      obtain ⟨settled', whole'⟩ := reset_settled quiet here' output
      have done : (flush (readBlock w s)).finished := ⟨here'.error_, state'.trans state⟩
      have done' : (flush (readBlock w (s.received b))).finished := by
        rw [right, flush_received]; exact done
      have round := handleRead_finishes done
      have round' := handleRead_finishes done'
      rw [right, flush_received, reset_received] at round'
      have less := readBlock_depth (flush_finished done)
      have kept := (readBlock_block w s).input
      generalize eq : reset (flush (readBlock w s)) = r at *
      have connected : r.http.connectionState_ ≠ .disconnecting := by
        rw [settled'.here.connectionState_]; decide
      have input : r.input = (readBlock w s).input := by rw [← eq, reset_input, flush_input]
      -- The round has answered a request; the handler goes on while there is input.
      by_cases continues : r.continues
      · have next : handleRead w s = handleRead w r := round.trans (if_pos continues)
        have small' : (r.http.inBuffer_ ++ b).length < 2 ^ 31 := by
          rw [← input, Conn.input_quiet settled'.quiet.reads,
            Conn.input_quiet settled.quiet.reads] at kept
          rw [List.length_append] at small ⊢
          omega
        have deeper : r.depth < depth := by
          rw [← eq, reset_depth, flush_input, ← bound]
          exact less
        have next' : handleRead w (s.received b) = handleRead w (r.received b) :=
          round'.trans (if_pos ⟨fun h => continues.1 (List.append_eq_nil_iff.mp h).1, connected⟩)
        rw [next, next']
        exact ih r.depth deeper settled' whole' small' rfl
      · have next : handleRead w s = r := round.trans (if_neg continues)
        rw [next]
        refine .inr ⟨settled', fun _ => ?_⟩
        have later := handleRead_alike w (.refl (show Quiet (r.received b).wire from settled'.quiet))
        -- Without the rest the handler returns here, with it there may be one more round.
        by_cases more : (r.received b).continues
        · rw [show handleRead w (s.received b) = _ from round'.trans (if_pos more)]
          exact .refl later.right
        · have nothing : (r.received b).http.inBuffer_ = [] := by
            by_contra some
            exact more ⟨some, connected⟩
          have line : r.http.state_ = .parseUri := by
            obtain ⟨timer, http⟩ := reset_http (flush (readBlock w s))
            rw [← eq, http]
          rw [show handleRead w (s.received b) = _ from round'.trans (if_neg more)]
          exact handleRead_idle (settled'.received b) line nothing

/-- A handler that has not failed leaves the connection ready for the next event. -/
theorem handleRead_settled (w : World) {s : Conn} (settled : Settled s)
    (whole : s.http.ScansWhole) (small : s.http.inBuffer_.length < 2 ^ 31)
    (alive : (handleRead w s).http.error_ = false) : Settled (handleRead w s) := by
  rcases handleRead_received w settled whole (b := []) (by simpa using small) with fails | ⟨done, _⟩
  · exact nomatch fails.left.symm.trans alive
  · exact done

end LightAgent
