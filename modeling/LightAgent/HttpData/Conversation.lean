import LightAgent.LightAgentGateway.Members
import LightAgent.HttpData.BareRequests
import LightAgent.HttpData.SelfDelimiting
import LightAgent.HttpData.Service
import LightAgent.Library.HttpReader

/-!
# Conversations

Requests that come in reads of any size, as long as no read ends inside the header lines of a
request, are answered as the service answers them. A client that reads the answers by their
heads gets them one by one.
-/
namespace LightAgent

open Library

/-! ### A request that has come in part -/

namespace ClientRequest

variable {w : World} {q : ClientRequest} {s : Conn}

/-- A read may end here: before the first byte of the header lines, or behind the blank line. -/
def MayEnd (q : ClientRequest) (n : Nat) : Prop :=
  n ≤ q.line.length + 2 ∨ q.line.length + (headerLines q.lines).length + 4 ≤ n

instance (q : ClientRequest) (n : Nat) : Decidable (q.MayEnd n) := inferInstanceAs (Decidable (_ ∨ _))

end ClientRequest

/-- Where a stage waits with no output pending, the handler leaves what the stage has left. -/
theorem handleRead_stops {w : World} {s : Conn} {h : HttpData} (settled : Settled s)
    (stages : parseStages w s = .error (s.setHttp h)) (alive : h.error_ = false)
    (output : h.outBuffer_ = []) : Settled (handleRead w s) ∧
      (handleRead w s).http.inBuffer_ = h.inBuffer_ ∧
      (h.ScansWhole → (handleRead w s).http.ScansWhole) := by
  have block : readBlock w s = s.setHttp h := by rw [settled.block, stages]; rfl
  have between := parseStages_waits settled.between stages alive
  have here : h.connectionState_ = .connected := by
    have same := readBlock_connectionState w settled.quiet.reads
    rw [block] at same
    exact same.trans settled.here.connectionState_
  rw [handleRead_waits (by rw [block]; exact between) (by rw [block]; exact output), block]
  have rearmed := rearm_alike (s := s.setHttp h) settled.quiet
  obtain ⟨channel, timer, http⟩ := rearmed.http
  refine ⟨⟨rearmed.right, ?_, ?_, ?_⟩, ?_, fun whole => ?_⟩
  all_goals rw [http]
  · exact ⟨alive, here⟩
  · exact output
  · exact ⟨between.state, between.fresh, between.posted⟩
  · rfl
  · exact whole

namespace ClientRequest

variable {w : World} {q : ClientRequest} {s : Conn}

/-- A part of a request that has come, as the parsing leaves it. -/
structure Awaits (w : World) (s : Conn) (n : Nat) (h : HttpData) : Prop where
  stages : parseStages w s = .error (s.setHttp h)
  alive : h.error_ = false
  output : h.outBuffer_ = []
  whole : h.ScansWhole
  buffer : h.inBuffer_.length ≤ n

/-- Without its CR the request line is waited for. -/
theorem awaits_line (idle : Idle s) {p : Bytes} (part : CR ∉ p) :
    Awaits w (s.received p) p.length (s.received p).http := by
  have again : (s.received p).http.parseURI = ((s.received p).http, .again) := by
    unfold HttpData.parseURI
    have position : (s.received p).http.nowReadPos_ = 0 := idle.position
    have absent : CR ∉ (s.received p).http.inBuffer_.drop 0 := by
      rw [idle.received_buffer, List.drop_zero]
      exact part
    rw [position, findFrom_byte_absent absent]
  have state : (s.received p).http.state_ = .parseUri := idle.state
  refine ⟨?_, idle.settled.here.error_, idle.settled.output, fun headers => ?_, ?_⟩
  · unfold parseStages parseUriStage
    rw [if_pos state, again]
    rfl
  · cases state.symm.trans headers
  · rw [idle.received_buffer]

/-- The CR of the request line, with its LF or without, is no beginning of a header line. -/
theorem awaits_break (idle : Idle s) {breaks : Bytes} (only : ∀ c ∈ breaks, c = LF ∨ c = CR) :
    Awaits w (s.received (q.line ++ CR :: breaks)) breaks.length
      (q.lineRead (s.received (q.line ++ CR :: breaks)).http breaks) := by
  have settled := idle.settled.received (q.line ++ CR :: breaks)
  have line := parseUriStage_line (s := s.received (q.line ++ CR :: breaks)) (q := q) idle.state
    idle.position (idle.received_buffer _)
  have start : (s.received (q.line ++ CR :: breaks)).http.hState_ = .start :=
    settled.between.fresh idle.state
  refine ⟨?_, settled.here.error_, settled.output, fun _ => start, Nat.le_refl _⟩
  unfold parseStages
  rw [line]
  change (parseHeadersStage w (Conn.setHttp _ _)).bind recvBodyStage = _
  unfold parseHeadersStage
  rw [if_pos (by rfl)]
  dsimp only [Conn.setHttp]
  rw [HttpData.parseHeaders_breaks w.outside
    (h := q.lineRead (s.received (q.line ++ CR :: breaks)).http breaks) start only]
  rfl

/-- Behind the header lines a body that is not whole is waited for. -/
theorem awaits_body (idle : Idle s) (small : q.text.length < 2 ^ 31) {come : Bytes}
    (part : come <+: q.body) (more : come ≠ q.body) :
    Awaits w (s.received (q.line ++ CR :: LF :: (headerLines q.lines ++ (CRLF ++ come))))
      come.length
      (q.headRead (s.received
        (q.line ++ CR :: LF :: (headerLines q.lines ++ (CRLF ++ come)))).http come) := by
  let p := q.line ++ CR :: LF :: (headerLines q.lines ++ (CRLF ++ come))
  have settled := idle.settled.received p
  have post : q.method = .post := by
    by_contra other
    rw [q.bodiless other] at part more
    exact more (List.prefix_nil.mp part)
  have line := parseUriStage_line (s := s.received p) (q := q) idle.state idle.position
    (idle.received_buffer p)
  have block := parseHeadersStage_lines (w := w) (s := s.received p) come small
    (settled.between.fresh idle.state) idle.headers
  have body := recvBodyStage_come (q := q) (s := s.received p) small part
  rw [if_neg more] at body
  have state : (q.headRead (s.received p).http come).state_ = .recvBody := if_pos post
  refine ⟨?_, settled.here.error_, settled.output, fun headers => ?_, Nat.le_refl _⟩
  · unfold parseStages
    rw [line]
    change (parseHeadersStage w _).bind recvBodyStage = _
    rw [block]
    exact body
  · cases state.symm.trans headers

/-- A part of a request that ends where a read may end is waited with. -/
theorem awaits_part (idle : Idle s) (small : q.text.length < 2 ^ 31) {n : Nat}
    (less : n < q.text.length) (ends : q.MayEnd n) :
    ∃ h, Awaits w (s.received (q.text.take n)) n h := by
  have length := q.length_text
  rcases ends with early | late
  · by_cases inLine : n ≤ q.line.length
    · have cut : q.text.take n = q.line.take n := by
        unfold text
        rw [List.take_append_of_le_length inLine]
      have part : CR ∉ q.line.take n := fun member => q.line_whole (List.mem_of_mem_take member)
      have waits := awaits_line (w := w) idle part
      rw [List.length_take_of_le inLine] at waits
      rw [cut]
      exact ⟨_, waits⟩
    · -- The CR has come, and perhaps the LF.
      have breaks (come : Bytes) (cut : q.text.take n = q.line ++ CR :: come)
          (only : ∀ c ∈ come, c = LF ∨ c = CR) : ∃ h, Awaits w (s.received (q.text.take n)) n h := by
        have waits := awaits_break (w := w) (q := q) idle only
        have longer := congrArg List.length cut
        rw [List.length_take_of_le less.le, List.length_append, List.length_cons] at longer
        rw [cut]
        exact ⟨_, waits.stages, waits.alive, waits.output, waits.whole, by
          have := waits.buffer; omega⟩
      have place : n = q.line.length + 1 ∨ n = q.line.length + 2 := by omega
      rcases place with rfl | rfl
      · refine breaks [] ?_ (by simp)
        unfold text
        rw [List.take_length_add_append]
        rfl
      · refine breaks [LF] ?_ (by simp)
        unfold text
        rw [List.take_length_add_append]
        rfl
  · obtain ⟨k, rfl⟩ := Nat.exists_eq_add_of_le late
    have cut : q.text.take (q.line.length + (headerLines q.lines).length + 4 + k) =
        q.line ++ CR :: LF :: (headerLines q.lines ++ (CRLF ++ q.body.take k)) := by
      have place : q.line.length + (headerLines q.lines).length + 4 + k =
          q.line.length + ((headerLines q.lines).length + (CRLF.length + k) + 1 + 1) := by
        rw [show CRLF.length = 2 from rfl]
        omega
      unfold text
      rw [place, List.take_length_add_append, List.take_succ_cons, List.take_succ_cons,
        List.take_length_add_append, List.take_length_add_append]
    have more : q.body.take k ≠ q.body := by
      intro whole
      have same := congrArg List.length whole
      rw [List.length_take] at same
      omega
    have waits := awaits_body (w := w) idle small (List.take_prefix k q.body) more
    rw [cut]
    refine ⟨_, waits.stages, waits.alive, waits.output, waits.whole, ?_⟩
    refine Nat.le_trans waits.buffer ?_
    rw [List.length_take]
    omega

end ClientRequest

/-! ### Requests that have come in part -/

/-- A read may end at this place of the requests. -/
def MayEnd : List ClientRequest → Nat → Prop
  | [], _ => True
  | q :: qs, n => if n < q.text.length then q.MayEnd n else MayEnd qs (n - q.text.length)

instance decideMayEnd : (qs : List ClientRequest) → (n : Nat) → Decidable (MayEnd qs n)
  | [], _ => .isTrue trivial
  | q :: qs, n =>
    have := decideMayEnd qs (n - q.text.length)
    inferInstanceAs (Decidable (if n < q.text.length then q.MayEnd n else _))

/-- The next chunk can be taken: no scan is stopped half way, and at most the part of one request
is held. -/
structure Held (qs : List ClientRequest) (t : Conn) : Prop where
  whole : t.http.ScansWhole
  buffer : t.http.inBuffer_ = [] ∨ ∃ q ∈ qs, t.http.inBuffer_.length ≤ q.text.length

theorem Idle.held {s : Conn} (idle : Idle s) (qs : List ClientRequest) : Held qs s :=
  ⟨fun headers => (nomatch idle.state.symm.trans headers), .inl idle.buffer⟩

theorem Held.more {qs : List ClientRequest} {t : Conn} (held : Held qs t) (q : ClientRequest) :
    Held (q :: qs) t :=
  ⟨held.whole, held.buffer.imp_right fun ⟨q', member, bound⟩ =>
    ⟨q', List.mem_cons_of_mem _ member, bound⟩⟩

/-- Up to such a place the bytes can be served request by request. -/
theorem exists_chunks {w : World} {s : Conn} {qs : List ClientRequest} {n : Nat} (idle : Idle s)
    (small : ∀ q ∈ qs, q.text.length < 2 ^ 31) (ends : MayEnd qs n) : ∃ chunks, [] ∉ chunks ∧
      chunks.flatten = (qs.flatMap ClientRequest.text).take n ∧ Takes w s chunks ∧
      ((serveAll w s chunks).http.error_ = false → Held qs (serveAll w s chunks)) := by
  induction qs generalizing s n with
  | nil => exact ⟨[], List.not_mem_nil, by simp, trivial, fun _ => idle.held _⟩
  | cons q qs ih =>
    have small' := small q List.mem_cons_self
    have later := fun q member => small q (List.mem_cons_of_mem _ member)
    rw [List.flatMap_cons]
    unfold MayEnd at ends
    by_cases less : n < q.text.length
    · -- The place is in the first request.
      rw [if_pos less] at ends
      rw [List.take_append_of_le_length less.le]
      by_cases none : n = 0
      · subst none
        exact ⟨[], List.not_mem_nil, rfl, trivial, fun _ => idle.held _⟩
      · have part : (q.text.take n).length = n := List.length_take_of_le less.le
        have takes := idle.takes (r := q.text.take n) (by omega)
        refine ⟨[q.text.take n], ?_, List.append_nil _, ⟨fun _ => takes, trivial⟩, fun _ => ?_⟩
        · intro member
          rw [← List.mem_singleton.mp member] at part
          exact none part.symm
        · obtain ⟨h, waits⟩ := q.awaits_part (w := w) idle small' less ends
          obtain ⟨_, buffer, whole⟩ := handleRead_stops (idle.settled.received _) waits.stages
            waits.alive waits.output
          have step : serveAll w s [q.text.take n] = handleRead w (s.received (q.text.take n)) :=
            serve_alive idle.settled.here.error_ _
          rw [step]
          refine ⟨whole waits.whole, .inr ⟨q, List.mem_cons_self, ?_⟩⟩
          rw [buffer]
          exact Nat.le_trans waits.buffer less.le
    · rw [if_neg less] at ends
      rw [List.take_append, List.take_of_length_le (Nat.le_of_not_lt less)]
      have takes := idle.takes small'
      cases replies : q.reply w s.wire.served with
      | none =>
        -- Behind a refusal it does not matter in which chunks the rest comes.
        obtain ⟨failed, _⟩ := q.refuses idle small' replies
        let rest := (qs.flatMap ClientRequest.text).take (n - q.text.length)
        let more : List Bytes := if rest = [] then [] else [rest]
        have solid : [] ∉ more := by
          intro member
          unfold more at member
          split at member
          next => exact List.not_mem_nil member
          next some => exact some (List.mem_singleton.mp member).symm
        have whole : more.flatten = rest := by
          unfold more
          split
          next nothing => rw [nothing]; rfl
          next => exact List.append_nil _
        obtain ⟨takes', stays⟩ := takes_failed (w := w) failed more
        refine ⟨q.text :: more, ?_, ?_, ⟨fun _ => takes, takes'⟩, fun alive => ?_⟩
        · exact List.not_mem_cons_of_ne_of_not_mem q.text_ne_nil.symm solid
        · rw [List.flatten_cons, whole]
        · change (serveAll w (serve w s q.text) more).http.error_ = false at alive
          rw [stays] at alive
          cases failed.symm.trans alive
      | some text =>
        obtain ⟨idle', _⟩ := q.answers idle small' replies
        obtain ⟨chunks, solid, whole, takes', held⟩ := ih idle' later ends
        refine ⟨q.text :: chunks, ?_, ?_, ⟨fun _ => takes, takes'⟩, fun alive => ?_⟩
        · exact List.not_mem_cons_of_ne_of_not_mem q.text_ne_nil.symm solid
        · rw [List.flatten_cons, whole]
        · exact (held alive).more q

/-! ### Reads of any size -/

/-- The chunks bring the requests, and none of them ends inside header lines. -/
structure ReadApart (qs : List ClientRequest) (chunks : List Bytes) : Prop where
  solid : [] ∉ chunks
  whole : chunks.flatten = qs.flatMap ClientRequest.text
  ends : ∀ k < chunks.length, MayEnd qs (chunks.take k).flatten.length
  /-- Sizes are narrowed to `int`. -/
  sized : ∀ q ∈ qs, ∀ c ∈ chunks, q.text.length + c.length < 2 ^ 31

instance (qs : List ClientRequest) (chunks : List Bytes) : Decidable (ReadApart qs chunks) :=
  decidable_of_iff ([] ∉ chunks ∧ chunks.flatten = qs.flatMap ClientRequest.text ∧
      (∀ k < chunks.length, MayEnd qs (chunks.take k).flatten.length) ∧
      ∀ q ∈ qs, ∀ c ∈ chunks, q.text.length + c.length < 2 ^ 31)
    ⟨fun ⟨solid, whole, ends, sized⟩ => ⟨solid, whole, ends, sized⟩,
      fun ⟨solid, whole, ends, sized⟩ => ⟨solid, whole, ends, sized⟩⟩

namespace ReadApart

variable {w : World} {s : Conn} {qs : List ClientRequest} {chunks : List Bytes}

theorem small (reads : ReadApart qs chunks) : ∀ q ∈ qs, q.text.length < 2 ^ 31 := by
  intro q member
  cases chunks with
  | nil =>
    -- Requests are not empty, so something is read.
    have nothing := List.flatMap_eq_nil_iff.mp reads.whole.symm q member
    exact absurd nothing q.text_ne_nil
  | cons c chunks =>
    have bound := reads.sized q member c List.mem_cons_self
    omega

theorem takes (reads : ReadApart qs chunks) (idle : Idle s) : Takes w s chunks := by
  -- On the number of chunks that have come.
  have upTo (k : Nat) (some : k ≤ chunks.length) : Takes w s (chunks.take k) := by
    induction k with
    | zero => exact trivial
    | succ k ih =>
      have less : k < chunks.length := some
      have before := ih less.le
      have member := List.getElem_mem less
      rw [← List.take_append_getElem less]
      refine takes_append.mpr ⟨before, fun alive => ?_, trivial⟩
      obtain ⟨served, solid, same, takes, held⟩ :=
        exists_chunks (w := w) idle reads.small (reads.ends k less)
      -- Request by request the connection comes to the same state.
      have cut : served.flatten = (chunks.take k).flatten := by
        have parts : chunks.flatten = (chunks.take k).flatten ++ (chunks.drop k).flatten := by
          rw [← List.flatten_append, List.take_append_drop]
        rw [same, ← reads.whole, parts, List.take_left]
      have solid' : [] ∉ chunks.take k := fun member =>
        reads.solid (List.mem_of_mem_take member)
      have outcome := serveAll_same (Alike.refl idle.settled.quiet).same (fun _ => idle.settled)
        solid solid' cut takes before
      have alive' := outcome.error_.symm.trans alive
      have here := held alive'
      obtain ⟨channel, timer, http⟩ := (outcome.alike alive').http
      rw [http]
      refine ⟨here.whole, ?_⟩
      change ((serveAll w s served).http.inBuffer_ ++ _).length < _
      rw [List.length_append]
      rcases here.buffer with empty | ⟨q, inside, bound⟩
      · rw [empty]
        obtain ⟨q, inside⟩ : ∃ q, q ∈ qs := by
          refine List.exists_mem_of_ne_nil qs ?_
          rintro rfl
          have nothing := List.flatten_eq_nil_iff.mp reads.whole _ member
          exact reads.solid (nothing ▸ member)
        have := reads.sized q inside _ member
        simp only [List.length_nil]
        omega
      · have := reads.sized q inside _ member
        omega
  have all := upTo chunks.length (Nat.le_refl _)
  rwa [List.take_length] at all

theorem done (reads : ReadApart qs chunks) (idle : Idle s) {as : List Arrival}
    (brings : List.Forall₂ Arrival.Brings as chunks) :
    (converse w s.wire.served qs).Done s (arrivals w s as) :=
  (reads.takes idle).done idle reads.small brings reads.solid reads.whole

end ReadApart

/-- However requests are cut into reads, as long as no read ends inside header lines, the
connection does what the service does with them one by one: it sends the answers in their order
up to the first request that is refused, and calls the gateway for each API request, with its
body. -/
theorem conversation {w : World} {s : Conn} {qs : List ClientRequest} {chunks : List Bytes}
    {as : List Arrival} (idle : Idle s) (reads : ReadApart qs chunks)
    (brings : List.Forall₂ Arrival.Brings as chunks) :
    (converse w s.wire.served qs).Done s (arrivals w s as) :=
  reads.done idle brings

/-- A request for the API, with two bytes of body. -/
def ClientRequest.chat : ClientRequest where
  method := .post
  path := bytes "api/chat"
  version := .http11
  fields := []
  body := bytes "hi"
  target := by decide
  decoded := by decide
  plain := nofun
  noLength := nofun
  headed := .inl rfl
  bodiless := fun other => absurd rfl other

/-- A request for a file. -/
def ClientRequest.page : ClientRequest where
  method := .get
  path := bytes "page"
  version := .http11
  fields := [(bytes "Host", bytes "a")]
  body := []
  target := by decide
  decoded := by decide
  plain := by
    intro field member
    rw [List.mem_singleton.mp member]
    exact ⟨.of_isPlain (by decide), by decide⟩
  noLength := by decide
  headed := .inr (by decide)
  bodiless := fun _ => rfl

/-- Cut in the line and the body of the first request, and in the line of the second. -/
def chatThenPage : List Bytes :=
  [bytes "POST /ap", bytes "i/chat HTTP/1.1\r\nContent-Length: 2\r\n\r\nh",
    bytes "iGET /page HTTP/1.1\r", bytes "\nHost: a\r\n\r\n"]

theorem conversation_chatThenPage : ReadApart [.chat, .page] chatThenPage ∧
    (converse .bare Conn.sample.wire.served [.chat, .page]).refusal =
      some (errorPage 404 (bytes "Not Found!")) ∧
    (converse .bare Conn.sample.wire.served [.chat, .page]).Done .sample
      (arrivals .bare .sample (chatThenPage.map arrivalOf)) := by
  have reads : ReadApart [.chat, .page] chatThenPage := by decide +kernel
  have idle : Idle .sample := accepted_idle 0 0 5 ⟨0, 0⟩ true .new
  exact ⟨reads, by decide +kernel, conversation idle reads (arrivalOf_brings_each _)⟩

/-! ### What the client reads -/

namespace ClientRequest

variable {w : World} {q : ClientRequest} {n : Nat}

/-- Status code and body of the answer. -/
def outcome (w : World) (n : Nat) (q : ClientRequest) : Option (Nat × Bytes) :=
  if q.IsApi then
    (LightAgentGateway.handle (w.gateway n) q.gatewayRequest).map fun response =>
      (response.statusCode, if q.method = .head then [] else response.body)
  else if q.method = .post then none
  else if q.path = bytes "hello" then some (200, bytes "Hello World")
  else if q.path = bytes "favicon.ico" then some (200, favicon)
  else (w.fs n (cStr q.path)).bind fun sbuf =>
    if q.method = .head then some (200, []) else (content sbuf).map fun src => (200, src)

/-- The answers that end where their heads say. -/
def Readable (q : ClientRequest) : Prop :=
  q.path ≠ bytes "hello" ∧ ¬(q.method = .head ∧ q.path = bytes "favicon.ico")

instance (q : ClientRequest) : Decidable q.Readable := inferInstanceAs (Decidable (_ ∧ _))

def isHead (q : ClientRequest) : Bool := q.method = .head

theorem content_length {sbuf : FileStat} {src : Bytes} (readable : content sbuf = some src) :
    src.length = sbuf.st_size := by
  unfold content at readable
  split at readable
  next =>
    obtain ⟨mapped, _, rfl⟩ := Option.map_eq_some_iff.mp readable
    exact mapped.2
  next => cases readable

/-- An answer is a message that its head delimits. -/
theorem reply_message {text : Bytes} (readable : q.Readable) (replies : q.reply w n = some text) :
    ∃ (head : Head) (body : Bytes), text = head.text ++ body ∧ head.Ends isLength q.isHead body ∧
      q.outcome w n = some (head.code, body) := by
  obtain ⟨noHello, noIcon⟩ := readable
  -- Without a body for HEAD, with the body that is announced otherwise.
  have bodiless (asked : q.method = .head) (head : Head) : head.Ends isLength q.isHead [] := by
    unfold Head.Ends isHead
    rw [if_pos (decide_eq_true asked)]
  have bodied (get : q.method ≠ .head) {head : Head} {body : Bytes}
      (announced : head.values isLength = [decimal body.length]) :
      head.Ends isLength q.isHead body := by
    unfold Head.Ends isHead
    rw [if_neg (by simpa using get)]
    exact announced
  unfold reply at replies
  unfold outcome
  by_cases api : q.IsApi
  · rw [if_pos api] at replies ⊢
    obtain ⟨response, answers, rfl⟩ := Option.map_eq_some_iff.mp replies
    have unbroken := handle_unbroken answers
    refine ⟨apiHead response q.keepAlive unbroken, _, by rw [apiHead_text unbroken], ?_, ?_⟩
    · by_cases head : q.method = .head
      · rw [if_pos head]
        exact bodiless head _
      · rw [if_neg head]
        exact bodied head (apiHead_values _ _)
    · rw [answers]
      rfl
  rw [if_neg api] at replies ⊢
  by_cases post : q.method = .post
  · rw [if_pos post] at replies
    cases replies
  rw [if_neg post, if_neg noHello] at replies ⊢
  by_cases icon : q.path = bytes "favicon.ico"
  · rw [if_pos icon, Option.some.injEq] at replies
    have get : q.method ≠ .head := fun head => noIcon ⟨head, icon⟩
    rw [if_pos icon, ← replies, faviconHeader_text]
    exact ⟨_, _, rfl, bodied get (staticHead_values _ _ _), rfl⟩
  rw [if_neg icon] at replies ⊢
  obtain ⟨sbuf, found, answers⟩ := Option.bind_eq_some_iff.mp replies
  rw [found, Option.bind_some]
  by_cases head : q.method = .head
  · rw [if_pos head, Option.some.injEq] at answers
    rw [if_pos head, ← answers, fileHeader_text]
    exact ⟨_, [], (List.append_nil _).symm, bodiless head _, rfl⟩
  · rw [if_neg head] at answers ⊢
    obtain ⟨src, readable, rfl⟩ := Option.map_eq_some_iff.mp answers
    rw [readable, fileHeader_text]
    exact ⟨_, src, rfl, bodied head (content_length readable ▸ staticHead_values _ _ _), rfl⟩

end ClientRequest

/-- The answers are messages, one for each of the requests that are answered. -/
theorem converse_messages (w : World) {qs : List ClientRequest}
    (readable : ∀ q ∈ qs, q.Readable) (n : Nat) : ∃ messages : List (Head × Bytes),
      (converse w n qs).answers = messages.map (fun message => message.1.text ++ message.2) ∧
      List.Forall₂ (fun bodiless message => message.1.Ends isLength bodiless message.2)
        ((qs.take (converse w n qs).answers.length).map ClientRequest.isHead) messages ∧
      messages.map (fun message => some (message.1.code, message.2)) =
        (qs.take (converse w n qs).answers.length).mapIdx fun i q => q.outcome w (n + i) := by
  induction qs generalizing n with
  | nil => exact ⟨[], rfl, .nil, rfl⟩
  | cons q qs ih =>
    cases replies : q.reply w n with
    | none =>
      have refused : (converse w n (q :: qs)).answers = [] := by rw [converse, replies]
      rw [refused]
      exact ⟨[], rfl, .nil, rfl⟩
    | some text =>
      have goesOn : (converse w n (q :: qs)).answers = text :: (converse w (n + 1) qs).answers := by
        rw [converse, replies]
      obtain ⟨head, body, rfl, ends, outcome⟩ :=
        q.reply_message (readable q List.mem_cons_self) replies
      obtain ⟨messages, texts, each, outcomes⟩ :=
        ih (fun q member => readable q (List.mem_cons_of_mem _ member)) (n + 1)
      rw [goesOn, List.length_cons, List.take_succ_cons, List.map_cons, List.mapIdx_cons]
      refine ⟨(head, body) :: messages, by rw [texts]; rfl, .cons ends each, ?_⟩
      rw [List.map_cons, outcomes]
      simp only [Nat.add_zero, outcome, Nat.add_assoc, Nat.add_comm 1]

/-- A client that reads a stream of answers by their heads gets the messages, and what a refusal
has sent is left. -/
theorem readMessages_converse (w : World) {qs : List ClientRequest}
    (readable : ∀ q ∈ qs, q.Readable) (n : Nat) : ∃ messages,
      readMessages isLength ((qs.take (converse w n qs).answers.length).map ClientRequest.isHead)
        (converse w n qs).sent = some (messages, (converse w n qs).refusal.getD []) ∧
      messages.map (fun message => some (message.code, message.body)) =
        (qs.take (converse w n qs).answers.length).mapIdx fun i q => q.outcome w (n + i) := by
  obtain ⟨messages, texts, each, outcomes⟩ := converse_messages w readable n
  refine ⟨messages.map fun message => message.1.message message.2, ?_, ?_⟩
  · unfold Conversation.sent
    rw [← readMessages_texts each, texts, List.flatMap_def]
  · rw [← outcomes, List.map_map]
    rfl

/-- The client reads the outcome of each request that is answered, whatever the cuts and whatever
the bodies hold. -/
theorem answers_read_back {w : World} {s : Conn} {qs : List ClientRequest} {chunks : List Bytes}
    {as : List Arrival} (idle : Idle s) (reads : ReadApart qs chunks)
    (brings : List.Forall₂ Arrival.Brings as chunks) (readable : ∀ q ∈ qs, q.Readable) :
    ∃ stream messages, (arrivals w s as).wire.sent = s.wire.sent ++ stream ∧
      let c := converse w s.wire.served qs
      readMessages isLength ((qs.take c.answers.length).map ClientRequest.isHead) stream =
        some (messages, c.refusal.getD []) ∧
      messages.map (fun message => some (message.code, message.body)) =
        (qs.take c.answers.length).mapIdx fun i q => q.outcome w (s.wire.served + i) := by
  obtain ⟨messages, read, outcomes⟩ := readMessages_converse w readable s.wire.served
  exact ⟨_, messages, (reads.done (w := w) idle brings).sent, read, outcomes⟩

theorem answers_read_back_chatThenPage : ∃ stream messages,
    (arrivals .bare .sample (chatThenPage.map arrivalOf)).wire.sent =
        Conn.sample.wire.sent ++ stream ∧
      let c := converse .bare Conn.sample.wire.served [.chat, .page]
      c.answers.length = 1 ∧
      readMessages isLength
        (([ClientRequest.chat, .page].take c.answers.length).map ClientRequest.isHead) stream =
          some (messages, c.refusal.getD []) ∧
      messages.map (fun message => some (message.code, message.body)) =
        ([ClientRequest.chat, .page].take c.answers.length).mapIdx fun i q =>
          q.outcome .bare (Conn.sample.wire.served + i) := by
  have reads : ReadApart [.chat, .page] chatThenPage := by decide +kernel
  have length : (converse .bare Conn.sample.wire.served [.chat, .page]).answers.length = 1 := by
    decide +kernel
  have idle : Idle .sample := accepted_idle 0 0 5 ⟨0, 0⟩ true .new
  obtain ⟨stream, messages, sent, read, outcomes⟩ :=
    answers_read_back (w := .bare) idle reads (arrivalOf_brings_each _) (by decide +kernel)
  exact ⟨stream, messages, sent, length, read, outcomes⟩

/-! ### Chats -/

def ClientRequest.IsChat (q : ClientRequest) : Prop := q.method = .post ∧ q.path = bytes "api/chat"

namespace ClientRequest.IsChat

variable {q : ClientRequest} (isChat : q.IsChat)

include isChat

theorem outcome (w : World) (n : Nat) :
    q.outcome w n = some (200, (LightAgentGateway.chat q.gatewayRequest).body) := by
  obtain ⟨post, path⟩ := isChat
  have api : q.IsApi := by
    unfold IsApi
    rw [path]
    decide
  have answers : LightAgentGateway.handle (w.gateway n) q.gatewayRequest =
      some (LightAgentGateway.chat q.gatewayRequest) := by
    unfold LightAgentGateway.handle gatewayRequest
    rw [post, path]
    rfl
  have get : q.method ≠ .head := by rw [post]; decide
  unfold ClientRequest.outcome
  rw [if_pos api, answers, Option.map_some, if_neg get]
  rfl

theorem reply (w : World) (n : Nat) : ∃ text, q.reply w n = some text := by
  obtain ⟨post, path⟩ := isChat
  have api : q.IsApi := by
    unfold IsApi
    rw [path]
    decide
  obtain ⟨response, answers⟩ := handle_api (w.gateway n) (toGatewayMethod q.method) api q.body
  unfold ClientRequest.reply gatewayRequest
  rw [if_pos api, answers]
  exact ⟨_, rfl⟩

end ClientRequest.IsChat

/-- A chat is never refused. -/
theorem converse_chats (w : World) {qs : List ClientRequest} (chats : ∀ q ∈ qs, q.IsChat)
    (n : Nat) : (converse w n qs).refusal = none ∧ (converse w n qs).answers.length = qs.length := by
  induction qs generalizing n with
  | nil => exact ⟨rfl, rfl⟩
  | cons q qs ih =>
    obtain ⟨text, replies⟩ := (chats q List.mem_cons_self).reply w n
    obtain ⟨refusal, length⟩ := ih (fun q member => chats q (List.mem_cons_of_mem _ member)) (n + 1)
    rw [converse, replies]
    exact ⟨refusal, congrArg (· + 1) length⟩

/-- A client that sends one chat after another, in reads cut anywhere but inside header lines,
gets every one of its bodies back, in their order: it reads the answers by their heads, and the
member `received_body` of the n-th is the body of the n-th chat. -/
theorem chats_come_back {w : World} {s : Conn} {qs : List ClientRequest} {chunks : List Bytes}
    {as : List Arrival} (idle : Idle s) (chats : ∀ q ∈ qs, q.IsChat) (reads : ReadApart qs chunks)
    (brings : List.Forall₂ Arrival.Brings as chunks) : ∃ stream messages,
      (arrivals w s as).wire.sent = s.wire.sent ++ stream ∧
      readMessages isLength (qs.map fun _ => false) stream = some (messages, []) ∧
      (∀ message ∈ messages, message.code = 200) ∧
      messages.map (fun message => LightAgentGateway.json.readObject message.body) =
        qs.map fun q => some (LightAgentGateway.chatAnswer q.body) := by
  have readable : ∀ q ∈ qs, q.Readable := by
    intro q member
    obtain ⟨post, path⟩ := chats q member
    refine ⟨?_, fun head => ?_⟩
    · rw [path]
      decide
    · cases post.symm.trans head.1
  obtain ⟨messages, read, outcomes⟩ := readMessages_converse w readable s.wire.served
  obtain ⟨refusal, length⟩ := converse_chats w chats s.wire.served
  rw [length, List.take_length] at read outcomes
  rw [refusal] at read
  have bodied : qs.map ClientRequest.isHead = qs.map fun _ => false := by
    refine List.map_congr_left fun q member => ?_
    unfold ClientRequest.isHead
    rw [(chats q member).1]
    rfl
  rw [bodied] at read
  have each : messages.map (fun message => some (message.code, message.body)) =
      qs.map fun q => some (200, (LightAgentGateway.chat q.gatewayRequest).body) := by
    rw [outcomes]
    refine List.ext_getElem (by simp) fun i inside _ => ?_
    rw [List.getElem_mapIdx, List.getElem_map]
    exact (chats _ (List.getElem_mem _)).outcome w _
  refine ⟨_, messages, (reads.done (w := w) idle brings).sent, read, fun message member => ?_, ?_⟩
  · have member' := List.mem_map_of_mem (f := fun m : Message => some (m.code, m.body)) member
    rw [each] at member'
    obtain ⟨q, _, same⟩ := List.mem_map.mp member'
    exact (Prod.mk.inj (Option.some.inj same)).1.symm
  · have decoded := congrArg
      (List.map fun o => o.bind fun answer => LightAgentGateway.json.readObject answer.2) each
    rw [List.map_map, List.map_map] at decoded
    refine decoded.trans (List.map_congr_left fun q _ => ?_)
    have read := LightAgentGateway.chat_members q.gatewayRequest
    have body : q.gatewayRequest.body = q.body := rfl
    rw [LightAgentGateway.answerMembers, body] at read
    simp only [Function.comp_apply, Option.bind_some, read]

/-- Two chats, the second of which begins in the read that ends the first. -/
def twoChats : List Bytes :=
  [bytes "POST /api/chat HTTP/1.1\r\nContent-Length: 2\r\n\r\nh",
    bytes "iPOST /api/chat HTTP/1.1\r\nContent-Length: 2\r\n\r\nhi"]

theorem chats_come_back_twoChats : ∃ stream messages,
    (arrivals .bare .sample (twoChats.map arrivalOf)).wire.sent = Conn.sample.wire.sent ++ stream ∧
      readMessages isLength ([ClientRequest.chat, .chat].map fun _ => false) stream =
        some (messages, []) ∧
      (∀ message ∈ messages, message.code = 200) ∧
      messages.map (fun message => LightAgentGateway.json.readObject message.body) =
        [ClientRequest.chat, .chat].map fun q => some (LightAgentGateway.chatAnswer q.body) := by
  have chats : ∀ q ∈ [ClientRequest.chat, ClientRequest.chat], q.IsChat := by
    intro q member
    rcases List.mem_cons.mp member with rfl | member
    · exact ⟨rfl, rfl⟩
    · rw [List.mem_singleton.mp member]
      exact ⟨rfl, rfl⟩
  have reads : ReadApart [.chat, .chat] twoChats := by decide +kernel
  have idle : Idle .sample := accepted_idle 0 0 5 ⟨0, 0⟩ true .new
  exact chats_come_back (w := .bare) idle chats reads (arrivalOf_brings_each _)

end LightAgent
