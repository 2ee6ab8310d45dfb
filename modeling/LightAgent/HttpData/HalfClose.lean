import LightAgent.HttpData.CompleteRequests

/-!
# Requests behind which the stream ends

The end of the stream is taken for the end of the peer. Seen in the call that also brought
requests it lets one of them be answered; seen later it finds them all answered.
-/
namespace LightAgent

open Library

/-- The event brings this chunk and the end of the stream; writes never block. -/
structure Arrival.Ends (a : Arrival) (chunk : Bytes) : Prop where
  reads : deliveredToEnd a.reads = some chunk
  writes : Unblocked a.writes

instance (a : Arrival) (chunk : Bytes) : Decidable (a.Ends chunk) :=
  decidable_of_iff (deliveredToEnd a.reads = some chunk ∧ Unblocked a.writes)
    ⟨fun ⟨reads, writes⟩ => ⟨reads, writes⟩, fun ⟨reads, writes⟩ => ⟨reads, writes⟩⟩

/-! ### The answer to a request -/

theorem answered_received {w : World} {t : Conn} {b : Bytes} (ready : t.http.Ready)
    (small : (t.http.inBuffer_ ++ b).length < 2 ^ 31) :
    answered w (t.received b) = answered w t := by
  have later := analysisRequest_received w (s := t.withOutput [] [] []) (b := b)
    ⟨ready.state, ready.body⟩ small
  unfold answered
  change ((analysisRequest w ((t.withOutput [] [] []).received b)).1.wire.sent ++
    (analysisRequest w ((t.withOutput [] [] []).received b)).1.http.outBuffer_) = _
  rw [later]
  rfl

/-- A request that succeeds is answered alike on every connection it can reach. -/
theorem answered_same {w : World} {s t : Conn} (same : SameRequest s t)
    (served : t.wire.served = s.wire.served) (success : (analysisRequest w s).2 = .success)
    (success' : (analysisRequest w t).2 = .success) : answered w t = answered w s := by
  have keepAlive : t.http.isKeepAliveRequested = s.http.isKeepAliveRequested :=
    HttpData.isKeepAliveRequested_congr same.headers_
  have name := same.fileName_
  have method := same.method_
  -- The route that answers the one request is the route of the other.
  have route := answered_served success
  generalize answered w s = text at route ⊢
  cases route with
  | api response api answers =>
    have length : t.http.getContentLength = s.http.getContentLength :=
      HttpData.getContentLength_congr same.headers_
    have body : t.http.apiBody = s.http.apiBody := by
      unfold HttpData.apiBody
      rw [method, same.inBuffer_, length]
    obtain ⟨response', answers', eq⟩ := answered_api (name ▸ api) success'
    rw [method, name, body, served] at answers'
    obtain rfl : response' = response := Option.some.inj (answers'.symm.trans answers)
    rw [eq, keepAlive, method]
  | hello other hello =>
    have file : ¬(bytes "api/").isPrefixOf t.http.fileName_ = true := by
      rw [name, hello]
      decide
    exact answered_hello file (method ▸ other) (name.trans hello)
  | favicon other icon =>
    have file : ¬(bytes "api/").isPrefixOf t.http.fileName_ = true := by
      rw [name, icon]
      decide
    have hello : t.http.fileName_ ≠ bytes "hello" := by
      rw [name, icon]
      decide
    rw [answered_favicon file (method ▸ other) hello (name.trans icon), keepAlive]
  | file sbuf body other file hello icon found content =>
    have found' : w.fs t.wire.served (cStr t.http.fileName_) = some sbuf := by
      rw [served, name]
      exact found
    have other' : t.http.method_ ≠ .post := method ▸ other
    rw [← name] at file hello icon
    by_cases head : s.http.method_ = .head
    · rw [if_pos head] at content
      rw [answered_head file other' hello icon found' (method.trans head), keepAlive, name, content,
        List.append_nil]
    · rw [if_neg head] at content
      obtain ⟨opened, src, mapped, rfl⟩ := content
      rw [answered_mapped file other' hello icon found' (method ▸ head) opened mapped, keepAlive,
        name]

/-! ### One round -/

/-- Where a request succeeds nothing is written yet. -/
theorem analysisRequest_sent {w : World} {t : Conn} (success : (analysisRequest w t).2 = .success) :
    (analysisRequest w t).1.wire.sent = t.wire.sent := by
  obtain ⟨reply, answers⟩ := analysisRequest_blind w t
  obtain ⟨replies, failed⟩ := answers t.http.outBuffer_ t.wire.sent t.wire.writes
  change Replies _ _ _ (analysisRequest w t).1 reply at replies
  cases replies with
  | quiet _ unsent => exact unsent
  | appends _ _ unsent => exact unsent
  | hello _ unsent => exact unsent
  | page err_num msg =>
    have refused : (analysisRequest w t).2 = .error := failed err_num msg rfl
    rw [success] at refused
    cases refused

/-- A round that answers a request. -/
structure Round (w : World) (s t : Conn) : Prop where
  stages : toAnalysis w s = .ok t
  ready : t.http.Ready
  success : (analysisRequest w t).2 = .success
  alive : t.http.error_ = false
  here : t.http.connectionState_ ≠ .disconnected
  sent : t.wire.sent = s.wire.sent
  free : Unblocked t.wire.writes
  empty : s.http.outBuffer_ = []

namespace Round

variable {w : World} {s t : Conn} (round : Round w s t)

include round

/-- The block leaves the response in the output. -/
theorem block : (readBlock w s).http.outBuffer_ = answered w t ∧
    (readBlock w s).wire.sent = s.wire.sent ∧ Unblocked (readBlock w s).wire.writes ∧
    (readBlock w s).http.error_ = false ∧ (readBlock w s).http.state_ = .finish ∧
    (readBlock w s).http.connectionState_ = t.http.connectionState_ ∧
    (readBlock w s).http.inBuffer_ = (analysisRequest w t).1.http.inBuffer_ := by
  obtain ⟨stages, ready, success, alive, here, sent, free, empty⟩ := round
  have output : (readBlock w s).http.outBuffer_ = answered w t := by
    -- With nothing pending, what is assigned and what is appended are the same.
    rcases readBlock_success stages ready.state success with added | ⟨assigned, hello⟩
    · rw [added, empty, List.nil_append]
    · rw [assigned, hello]
  have kept := analysisRequest_sent success
  have still := (analysisRequest_outcome w ready free).1
  obtain ⟨⟨_, _, _, _, http⟩, _, _⟩ := analysisRequest_frame w t
  refine ⟨output, ?_⟩
  rw [readBlock_of_ok stages ready.state, analyse_success success]
  have going : (analysisRequest w t).1.http.error_ = t.http.error_ := by rw [http]
  have state : (analysisRequest w t).1.http.connectionState_ = t.http.connectionState_ := by
    rw [http]
  exact ⟨kept.trans sent, still, going.trans alive, rfl, state, rfl⟩

/-- The write behind the block sends all of it. -/
theorem flush : (flush (readBlock w s)).wire.sent = s.wire.sent ++ answered w t ∧
    (flush (readBlock w s)).finished ∧
    (flush (readBlock w s)).http.connectionState_ = t.http.connectionState_ := by
  obtain ⟨output, sent, free, alive, finish, state, _⟩ := round.block
  have here : (readBlock w s).http.connectionState_ ≠ .disconnected := state ▸ round.here
  obtain ⟨rest, _, drains⟩ := handleWrite_unblocked free alive here
  -- A response is not empty, so it is written.
  have some : (readBlock w s).http.outBuffer_ ≠ [] :=
    output ▸ (answered_served round.success).ne_nil
  have writes : LightAgent.flush (readBlock w s) = (readBlock w s).drain rest := by
    unfold LightAgent.flush
    rw [if_neg (by rw [alive]; decide), if_pos some, drains]
  rw [writes]
  refine ⟨?_, ⟨alive, finish⟩, state⟩
  change (readBlock w s).wire.sent ++ (readBlock w s).http.outBuffer_ = _
  rw [output, sent]

/-- With nothing to go on with, that is all. -/
theorem alone (last : (analysisRequest w t).1.http.inBuffer_ = [] ∨
    t.http.connectionState_ = .disconnecting) :
    (handleRead w s).wire.sent = s.wire.sent ++ answered w t := by
  obtain ⟨sent, done, state⟩ := round.flush
  obtain ⟨_, _, _, _, _, _, left⟩ := round.block
  obtain ⟨timer, http⟩ := reset_http (LightAgent.flush (readBlock w s))
  -- No further round: nothing is left, or the peer is known to be gone.
  have stops : ¬(reset (LightAgent.flush (readBlock w s))).continues := by
    rintro ⟨more, connected⟩
    rw [http] at more connected
    rcases last with used | gone
    · exact more ((flush_buffer _).trans (left.trans used))
    · exact connected (state.trans gone)
  rw [handleRead_finishes done]
  dsimp only
  rw [if_neg stops]
  rw [reset_wire]
  exact sent

end Round

/-! ### Requests that come alone -/

theorem Settled.stages {w : World} {s : Conn} (settled : Settled s) :
    toAnalysis w s = parseStages w s := by
  unfold toAnalysis
  rw [readStage_quiet settled.quiet.reads, if_neg (by rw [settled.here.connectionState_]; decide)]
  rfl

/-- The round of a request that comes alone. -/
theorem Answers.round {w : World} {s : Conn} {r : Bytes} (idle : Idle s)
    (answers : Answers w s r) : ∃ t, Round w (s.received r) t ∧
      parseStages w (s.received r) = .ok t ∧ (analysisRequest w t).1.http.inBuffer_ = [] := by
  -- The bytes are in the buffer already, so the stages are those of the parsing.
  obtain ⟨t, stages, ready, success, used⟩ := answers.stages idle
  have settled := idle.settled.received r
  have parsed := stages ▸ parseStages_parsed w (s.received r)
  have state : t.http.connectionState_ = s.http.connectionState_ := parsed.frame.connectionState_
  refine ⟨t, ⟨settled.stages.trans stages, ready, success, ?_, ?_, ?_, ?_, settled.output⟩,
    stages, used⟩
  · exact parsed.alive.trans settled.here.error_
  · rw [state, idle.settled.here.connectionState_]
    decide
  · rw [parsed.wire]
  · rw [parsed.wire]
    exact settled.quiet.writes

/-- A request that comes alone is answered, and with something. -/
theorem Answers.sends {w : World} {s : Conn} {r : Bytes} (idle : Idle s)
    (answers : Answers w s r) : ∃ text, text ≠ [] ∧
      (handleRead w (s.received r)).wire.sent = s.wire.sent ++ text := by
  obtain ⟨t, round, _, used⟩ := answers.round idle
  exact ⟨_, (answered_served round.success).ne_nil, round.alone (.inl used)⟩

/-- Requests that come one by one are each answered with something. -/
theorem arrivals_send {w : World} {s : Conn} {rs : List Bytes} {as : List Arrival} (idle : Idle s)
    (small : ∀ r ∈ rs, r.length < 2 ^ 31) (answered : ∀ r ∈ rs, AnsweredAlone w r)
    (alone : List.Forall₂ Arrival.Brings as rs) : ∃ text, (rs ≠ [] → text ≠ []) ∧
      (arrivals w s as).wire.sent = s.wire.sent ++ text := by
  induction alone generalizing s with
  | nil => exact ⟨[], fun some => absurd rfl some, (List.append_nil _).symm⟩
  | cons brings rest ih =>
    next a r as rs =>
    have small' := small r List.mem_cons_self
    have answers := (answered r List.mem_cons_self).answers small' idle
    have same := arrive_outcome (w := w) idle.settled brings small'
    -- Each event leaves the connection idle for the next one.
    have idle' : Idle (arrive w s a) :=
      (answers.idle idle).alike (same.alike (answers.idle idle).settled.here.error_)
    obtain ⟨text, some, sent⟩ := answers.sends idle
    obtain ⟨more, _, sent'⟩ := ih idle' (fun r member => small r (List.mem_cons_of_mem _ member))
      (fun r member => answered r (List.mem_cons_of_mem _ member))
    refine ⟨text ++ more, fun _ empty => some (List.append_eq_nil_iff.mp empty).1, ?_⟩
    change (arrivals w (arrive w s a) as).wire.sent = _
    rw [sent', same.sent, sent, List.append_assoc]

/-! ### The end of the stream -/

/-- What the first stage makes of a chunk behind which the stream ends. -/
theorem readStage_end {c : Conn} {chunk : Bytes} (whole : deliveredToEnd c.wire.reads = some chunk)
    (small : chunk.length < 2 ^ 31) (connected : c.http.connectionState_ ≠ .disconnecting) :
    ∃ rest, readStage c = if chunk = [] then
      .error (readInto c (c.http.inBuffer_ ++ chunk) rest .disconnecting)
      else .ok (readInto c (c.http.inBuffer_ ++ chunk) rest .disconnecting) := by
  obtain ⟨rest, read⟩ := readn_deliveredToEnd whole c.http.inBuffer_
  have num : ReadnResult.read_num ⟨some chunk.length, c.http.inBuffer_ ++ chunk, true, rest⟩ =
      chunk.length := toInt_of_lt small
  refine ⟨rest, ?_⟩
  unfold readStage
  rw [read]
  refine (if_neg connected).trans ((if_neg (by rw [num]; omega)).trans ((if_pos rfl).trans ?_))
  rw [num]
  -- The test of `zero` comes last: without bytes the block ends, with bytes it goes on.
  split
  next none =>
    rw [if_pos (List.eq_nil_of_length_eq_zero (by omega))]
    rfl
  next some =>
    rw [if_neg (by rintro rfl; exact some rfl)]
    rfl

/-- The poller and the timers see the rest; nothing more is written. -/
theorem arrive_wire {w : World} {s : Conn} {a : Arrival} (alive : s.http.error_ = false) :
    (arrive w s a).wire = (handleRead w ((s.meets a EPOLLIN).setEvents 0)).wire := by
  have begins : arrive w s a = handleConn (dispatch w ((s.meets a EPOLLIN).setEvents 0)) := by
    have late : returnsEarly EPOLLIN = false := by decide
    unfold arrive handleEvents
    rw [if_neg (by rw [alive]; decide)]
    change (if returnsEarly EPOLLIN = true then _ else _) = _
    rw [late]
    rfl
  rw [begins, handleConn_wire, dispatch_in w rfl]

/-- Once the stream is at its end nothing is written. -/
theorem end_is_quiet {w : World} {s : Conn} {a : Arrival} (idle : Idle s) (ends : a.Ends []) :
    (arrive w s a).wire.sent = s.wire.sent := by
  rw [arrive_wire idle.settled.here.error_]
  have connected : ((s.meets a EPOLLIN).setEvents 0).http.connectionState_ ≠ .disconnecting := by
    change s.http.connectionState_ ≠ .disconnecting
    rw [idle.settled.here.connectionState_]
    decide
  obtain ⟨rest, read⟩ := readStage_end (c := (s.meets a EPOLLIN).setEvents 0) ends.reads
    (by decide) connected
  have block : readBlock w ((s.meets a EPOLLIN).setEvents 0) =
      readInto ((s.meets a EPOLLIN).setEvents 0) (s.http.inBuffer_ ++ []) rest .disconnecting := by
    apply readBlock_of_error
    unfold toAnalysis
    rw [read]
    rfl
  have stays : flush (readBlock w ((s.meets a EPOLLIN).setEvents 0)) =
      readBlock w ((s.meets a EPOLLIN).setEvents 0) := by
    apply flush_empty
    rw [block]
    exact idle.settled.output
  -- Nothing was being parsed, so the round does not finish a request.
  have pending : ¬(flush (readBlock w ((s.meets a EPOLLIN).setEvents 0))).finished := by
    rw [stays, block]
    exact fun done => nomatch idle.state.symm.trans done.2
  rw [handleRead_eq]
  dsimp only
  rw [if_neg pending, stays, block]
  obtain ⟨events, rearmed⟩ := rearm_events
    (readInto ((s.meets a EPOLLIN).setEvents 0) (s.http.inBuffer_ ++ []) rest .disconnecting)
  rw [rearmed]
  rfl

/-- The connection at its parsing, in the call that reads a chunk and the end of the stream. -/
structure Closing (w : World) (s : Conn) (a : Arrival) (chunk : Bytes) (c : Conn) : Prop where
  read : toAnalysis w ((s.meets a EPOLLIN).setEvents 0) = parseStages w c
  start : SameStart (s.received chunk) c
  alive : c.http.error_ = false
  state : c.http.connectionState_ = .disconnecting
  between : c.http.Between
  sent : c.wire.sent = s.wire.sent
  served : c.wire.served = s.wire.served
  free : Unblocked c.wire.writes

theorem Idle.closing (w : World) {s : Conn} {chunk : Bytes} {a : Arrival} (idle : Idle s)
    (some : chunk ≠ []) (small : chunk.length < 2 ^ 31) (ends : a.Ends chunk) :
    ∃ c, Closing w s a chunk c := by
  have connected : ((s.meets a EPOLLIN).setEvents 0).http.connectionState_ ≠ .disconnecting := by
    change s.http.connectionState_ ≠ .disconnecting
    rw [idle.settled.here.connectionState_]
    decide
  obtain ⟨left, read⟩ := readStage_end (c := (s.meets a EPOLLIN).setEvents 0) ends.reads small
    connected
  rw [if_neg some] at read
  refine ⟨readInto ((s.meets a EPOLLIN).setEvents 0) (s.http.inBuffer_ ++ chunk) left
    .disconnecting, ?_, ⟨idle.state, idle.state, rfl, rfl, rfl, rfl⟩, idle.settled.here.error_, rfl,
    idle.settled.between.congr rfl rfl rfl, rfl, rfl, ends.writes⟩
  unfold toAnalysis
  rw [read]
  rfl

/-- The parser can be resumed with what follows a request. -/
theorem Idle.resumes {s : Conn} {r rest : Bytes} (idle : Idle s)
    (small : (r ++ rest).length < 2 ^ 31) : (s.received r).http.Resumable ∧
      ((s.received r).http.inBuffer_ ++ rest).length < 2 ^ 31 := by
  refine ⟨(idle.settled.received r).between.resumable fun headers => ?_, ?_⟩
  · exact absurd (idle.state.symm.trans headers) (by decide)
  · rw [idle.received_buffer]
    exact small

/-- In the call that sees the end of the stream, the first of the requests it brought is
answered and the others are not. -/
theorem first_is_answered {w : World} {s : Conn} {r rest : Bytes} {a : Arrival} (idle : Idle s)
    (answers : Answers w s r) (small : (r ++ rest).length < 2 ^ 31) (ends : a.Ends (r ++ rest)) :
    (arrive w s a).wire.sent = (handleRead w (s.received r)).wire.sent := by
  obtain ⟨t, round, stages, used⟩ := answers.round idle
  have solid := answers.solid idle
  obtain ⟨c, closing⟩ := idle.closing w (fun empty => solid (List.append_eq_nil_iff.mp empty).1)
    small ends
  -- The request parses alike with the rest behind it, and alike on the closing connection.
  have whole : parseStages w (s.received (r ++ rest)) = .ok (t.received rest) := by
    obtain ⟨resumable, fits⟩ := idle.resumes small
    rw [← Conn.received_received]
    cases parseStages_resumes w resumable fits with
    | goesOn t' done done' _ _ =>
      cases stages.symm.trans done
      exact done'
    | waits t' stops => cases stages.symm.trans stops
    | fails t' _ stops => cases stages.symm.trans stops
  obtain ⟨t', stages', same⟩ := parseStages_same_ok closing.start whole
  have parsed := stages ▸ parseStages_parsed w (s.received r)
  have parsed' := stages' ▸ parseStages_parsed w c
  have served : t'.wire.served = t.wire.served := by
    rw [parsed'.wire, parsed.wire, closing.served]
    rfl
  have fits : (t.http.inBuffer_ ++ rest).length < 2 ^ 31 := by
    have shorter : t.http.inBuffer_.length ≤ r.length := by
      have suffix := parsed.frame.inBuffer_.length_le
      rwa [idle.received_buffer] at suffix
    rw [List.length_append] at small ⊢
    omega
  have later := analysisRequest_received w round.ready fits
  have answer := analysisRequest_same (w := w) same (by rw [served]; rfl)
  have success : (analysisRequest w (t.received rest)).2 = .success := by
    rw [later]
    exact round.success
  have success' : (analysisRequest w t').2 = .success := answer.1.trans success
  have text : answered w t' = answered w t :=
    (answered_same same served success success').trans (answered_received round.ready fits)
  have state : t'.http.connectionState_ = .disconnecting := by
    rw [parsed'.frame.connectionState_, closing.state]
  have round' : Round w ((s.meets a EPOLLIN).setEvents 0) t' := by
    refine ⟨closing.read.trans stages', parseStages_ready closing.between stages', success', ?_, ?_,
      ?_, ?_, idle.settled.output⟩
    · rw [parsed'.alive, closing.alive]
    · rw [state]
      decide
    · rw [parsed'.wire, closing.sent]
      rfl
    · rw [parsed'.wire]
      exact closing.free
  rw [arrive_wire idle.settled.here.error_, round'.alone (.inr state), round.alone (.inl used), text]
  rfl

/-- If it is one that is rejected, it is rejected with the same page. -/
theorem first_is_rejected {w : World} {s : Conn} {r rest : Bytes} {a : Arrival} (idle : Idle s)
    (rejects : Rejects w s r) (small : (r ++ rest).length < 2 ^ 31) (ends : a.Ends (r ++ rest)) :
    (arrive w s a).wire.sent = (handleRead w (s.received r)).wire.sent := by
  have solid := rejects.solid idle
  obtain ⟨c, closing⟩ := idle.closing w (fun empty => solid (List.append_eq_nil_iff.mp empty).1)
    small ends
  have settled := idle.settled.received (r ++ rest)
  -- What follows the request does not save it, nor does the end of the stream.
  have whole : (readBlock w (s.received (r ++ rest))).http.error_ = true ∧
      (readBlock w (s.received (r ++ rest))).wire = (readBlock w (s.received r)).wire := by
    obtain ⟨resumable, fits⟩ := idle.resumes small
    have failed : (readBlock w (s.received r)).http.error_ = true := rejects
    rw [← Conn.received_received]
    cases readBlock_carries w (idle.settled.received r).quiet.reads resumable
      (idle.settled.received r).here fits with
    | finishes s' block _ opened =>
      rw [block] at failed
      exact nomatch opened.error_.symm.trans failed
    | waits s' block opened =>
      rw [block] at failed
      exact nomatch opened.error_.symm.trans failed
    | fails s' s'' block block' _ failed' wire =>
      rw [block, block']
      exact ⟨failed', wire⟩
  obtain ⟨failed, wire⟩ := whole
  rw [settled.block] at failed wire
  obtain ⟨_, failed', page, sent, sent'⟩ := endBlock_failAlike closing.start
    (by rw [closing.served]; rfl) settled.between settled.here.error_ closing.alive
    settled.quiet.writes closing.free failed
  have block : readBlock w ((s.meets a EPOLLIN).setEvents 0) = endBlock w (parseStages w c) :=
    congrArg (endBlock w) closing.read
  have failed' : (readBlock w ((s.meets a EPOLLIN).setEvents 0)).http.error_ = true := by
    rw [block]
    exact failed'
  rw [arrive_wire idle.settled.here.error_, handleRead_failed failed', handleRead_failed rejects,
    block, sent', ← wire, sent, closing.sent]
  rfl

/-- Of pipelined requests behind which the stream ends, all are answered where the end is seen in
a later call, and the first one where it is seen in the call that brings them. -/
theorem half_close_answers {w : World} {s : Conn} {r : Bytes} {rs : List Bytes}
    {a a₀ a₁ a₂ : Arrival} {as : List Arrival} (idle : Idle s)
    (small : (r :: rs).flatten.length < 2 ^ 31) (complete : ∀ q ∈ r :: rs, CompleteAlone w q)
    (together : a.Ends (r :: rs).flatten) (first : a₀.Brings r)
    (before : a₁.Brings (r :: rs).flatten) (after : a₂.Ends [])
    (alone : List.Forall₂ Arrival.Brings as (r :: rs)) :
    (arrive w (arrive w s a₁) a₂).wire.sent = (arrivals w s as).wire.sent ∧
      (arrive w s a).wire.sent = (arrive w s a₀).wire.sent ∧
      ((∀ q ∈ r :: rs, AnsweredAlone w q) →
        ((arrive w s a).wire.sent = (arrive w (arrive w s a₁) a₂).wire.sent ↔ rs = [])) := by
  have each : ∀ q ∈ r :: rs, q.length < 2 ^ 31 := fun q member =>
    Nat.lt_of_le_of_lt (List.sublist_flatten_of_mem member).length_le small
  have small' := each r List.mem_cons_self
  obtain ⟨same, last⟩ := complete_pipelined idle small complete before alone
  have later : (arrive w (arrive w s a₁) a₂).wire.sent = (arrivals w s as).wire.sent := by
    rw [← same.sent]
    cases state : (arrive w s a₁).http.error_ with
    | true =>
      have stays : arrive w (arrive w s a₁) a₂ = arrive w s a₁ := if_pos state
      rw [stays]
    | false => exact end_is_quiet (last state) after
  have single := arrive_outcome (w := w) idle.settled first small'
  have once : (arrive w s a).wire.sent = (arrive w s a₀).wire.sent := by
    rw [single.sent]
    rcases (complete r List.mem_cons_self).outcome small' idle with answers | rejects
    · exact first_is_answered idle answers small together
    · exact first_is_rejected idle rejects small together
  refine ⟨later, once, fun answered => ?_⟩
  have answers := (answered r List.mem_cons_self).answers small' idle
  rw [later, once]
  cases alone with
  | @cons a' _ as _ brings rest =>
    -- The first of the requests that come one by one is the one that is answered.
    have single' := arrive_outcome (w := w) idle.settled brings small'
    have idle₁ : Idle (arrive w s a') :=
      (answers.idle idle).alike (single'.alike (answers.idle idle).settled.here.error_)
    obtain ⟨text, some, sent⟩ := arrivals_send idle₁
      (fun q member => each q (List.mem_cons_of_mem _ member))
      (fun q member => answered q (List.mem_cons_of_mem _ member)) rest
    change _ = (arrivals w (arrive w s a') as).wire.sent ↔ _
    rw [sent, single.sent, ← single'.sent, List.self_eq_append_right]
    constructor
    · intro none
      by_contra more
      exact some more none
    · rintro rfl
      cases rest
      exact (List.self_eq_append_right.mp sent)

/-- The chunk in one read, and the end of the stream. -/
def endOf (chunk : Bytes) : Arrival :=
  { arrivalOf chunk with reads := (arrivalOf chunk).reads ++ [.eof] }

theorem half_close_answers_twoRequests :
    (arrive .bare (arrive .bare .sample (arrivalOf twoRequests.flatten)) (endOf [])).wire.sent =
        (arrivals .bare .sample (twoRequests.map arrivalOf)).wire.sent ∧
      (arrive .bare .sample (endOf twoRequests.flatten)).wire.sent =
        (arrive .bare .sample (arrivalOf twoRequests.head!)).wire.sent ∧
      ((arrive .bare .sample (endOf twoRequests.flatten)).wire.sent =
        (arrive .bare (arrive .bare .sample (arrivalOf twoRequests.flatten)) (endOf [])).wire.sent ↔
        twoRequests.tail = []) := by
  have idle : Idle .sample := accepted_idle 0 0 5 ⟨0, 0⟩ true .new
  have ends : ∀ r ∈ twoRequests,
      (readBlock .bare (Conn.sample.meets (arrivalOf r) EPOLLIN)).finished ∧
      (readBlock .bare (Conn.sample.meets (arrivalOf r) EPOLLIN)).http.inBuffer_ = [] := by
    decide
  have answered : ∀ r ∈ twoRequests, AnsweredAlone .bare r := fun r member n =>
    ⟨.sample, arrivalOf r, idle, rfl, arrivalOf_brings r, ends r member⟩
  have small : twoRequests.flatten.length < 2 ^ 31 := by decide
  have together : (endOf twoRequests.flatten).Ends twoRequests.flatten := by decide
  have after : (endOf []).Ends [] := by decide
  obtain ⟨later, once, equal⟩ := half_close_answers idle small
    (fun r member => (answered r member).complete) together (arrivalOf_brings twoRequests.head!)
    (arrivalOf_brings twoRequests.flatten) after (arrivalOf_brings_each twoRequests)
  exact ⟨later, once, equal answered⟩

/-- The second of two requests is only answered where the end of the stream is seen later. -/
theorem end_of_stream_drops_request : ∃ (a a₁ a₂ : Arrival), a.Ends twoRequests.flatten ∧
    a₁.Brings twoRequests.flatten ∧ a₂.Ends [] ∧
    (arrive .bare .sample a).wire.sent ≠ (arrive .bare (arrive .bare .sample a₁) a₂).wire.sent := by
  refine ⟨endOf twoRequests.flatten, arrivalOf twoRequests.flatten, endOf [], by decide,
    arrivalOf_brings _, by decide +kernel, by decide +kernel⟩

end LightAgent
