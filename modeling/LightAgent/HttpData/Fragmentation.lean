import LightAgent.HttpData.Arrival

/-!
# Input cut into chunks

Whether bytes come in one event or in several makes no difference to the peer, unless
an event comes while a header scan is stopped half way: `parseHeaders` has kept
`hState_` but not the offsets that go with it, and sees the last line once more.
-/
namespace LightAgent

open Library

theorem Alike.settled {s t : Conn} (alike : Alike s t) (settled : Settled s) : Settled t := by
  obtain ⟨channel, timer, http⟩ := alike.http
  refine ⟨alike.right, ?_, ?_, ?_⟩
  all_goals rw [http]
  · exact ⟨settled.here.error_, settled.here.connectionState_⟩
  · exact settled.output
  · exact ⟨settled.between.state, settled.between.fresh, settled.between.posted⟩

theorem SameOutcome.settled {s t : Conn} (same : SameOutcome s t)
    (settled : s.http.error_ = false → Settled s) (alive : t.http.error_ = false) : Settled t :=
  have alive' := same.error_.symm.trans alive
  (same.alike alive').settled (settled alive')

/-! ### Chunks given to the handler -/

/-- A chunk given to the handler, unless it has failed. -/
def serve (w : World) (s : Conn) (chunk : Bytes) : Conn :=
  if s.http.error_ then s else handleRead w (s.received chunk)

def serveAll (w : World) (s : Conn) (chunks : List Bytes) : Conn := chunks.foldl (serve w) s

theorem serve_alive {w : World} {s : Conn} (alive : s.http.error_ = false) (chunk : Bytes) :
    serve w s chunk = handleRead w (s.received chunk) := by
  unfold serve
  rw [if_neg (by rw [alive]; decide)]

theorem serve_failed {w : World} {s : Conn} (failed : s.http.error_ = true) (chunk : Bytes) :
    serve w s chunk = s := if_pos failed

theorem SameOutcome.serve {w : World} {s t : Conn} (same : SameOutcome s t) (chunk : Bytes) :
    SameOutcome (serve w s chunk) (serve w t chunk) := by
  cases state : s.http.error_ with
  | true =>
    rw [serve_failed state, serve_failed (same.error_.trans state)]
    exact same
  | false =>
    rw [serve_alive state, serve_alive (same.error_.trans state)]
    exact (handleRead_alike w ((same.alike state).received chunk)).same

theorem SameOutcome.serveAll {w : World} {s t : Conn} (same : SameOutcome s t)
    (chunks : List Bytes) : SameOutcome (serveAll w s chunks) (serveAll w t chunks) := by
  induction chunks generalizing s t with
  | nil => exact same
  | cons c cs ih => exact ih (same.serve c)

/-- What an event may not come upon: a header scan stopped half way, or so much input
that its size is no `int`. -/
structure HttpData.Takes (h : HttpData) (chunk : Bytes) : Prop where
  whole : h.ScansWhole
  small : (h.inBuffer_ ++ chunk).length < 2 ^ 31

/-- Every chunk comes upon a connection that can take it. -/
def Takes (w : World) : Conn → List Bytes → Prop
  | _, [] => True
  | s, c :: cs => (s.http.error_ = false → s.http.Takes c) ∧ Takes w (serve w s c) cs

theorem takes_append {w : World} {s : Conn} {cs ds : List Bytes} :
    Takes w s (cs ++ ds) ↔ Takes w s cs ∧ Takes w (serveAll w s cs) ds := by
  induction cs generalizing s with
  | nil => simp [Takes, serveAll]
  | cons c cs ih =>
    simp only [List.cons_append, Takes, ih, and_assoc]
    rfl

theorem SameOutcome.takes {w : World} {s t : Conn} (same : SameOutcome s t) {chunks : List Bytes}
    (takes : Takes w s chunks) : Takes w t chunks := by
  induction chunks generalizing s t with
  | nil => trivial
  | cons c cs ih =>
    refine ⟨fun alive => ?_, ih (same.serve c) takes.2⟩
    have alive' := same.error_.symm.trans alive
    obtain ⟨channel, timer, http⟩ := (same.alike alive').http
    obtain ⟨whole, small⟩ := takes.1 alive'
    rw [http]
    exact ⟨whole, small⟩

theorem serve_settled {w : World} {s : Conn} {chunk : Bytes}
    (settled : s.http.error_ = false → Settled s)
    (takes : s.http.error_ = false → s.http.Takes chunk)
    (alive : (serve w s chunk).http.error_ = false) : Settled (serve w s chunk) := by
  cases state : s.http.error_ with
  | true => rw [serve_failed state] at alive; exact nomatch state.symm.trans alive
  | false =>
    rw [serve_alive state] at alive ⊢
    exact handleRead_settled w ((settled state).received chunk) (takes state).whole
      (takes state).small alive

/-- A chunk can be given in two pieces if the handler can take the second after the first. -/
theorem serve_append {w : World} {s : Conn} {c d : Bytes}
    (settled : s.http.error_ = false → Settled s)
    (takes : s.http.error_ = false → s.http.Takes (c ++ d))
    (between : (serve w s c).http.error_ = false → (serve w s c).http.ScansWhole) :
    SameOutcome (serve w s (c ++ d)) (serve w (serve w s c) d) := by
  cases state : s.http.error_ with
  | true =>
    rw [serve_failed state, serve_failed state, serve_failed state]
    exact ⟨rfl, rfl, rfl, fun alive => nomatch state.symm.trans alive⟩
  | false =>
    obtain ⟨whole, small⟩ := takes state
    have split := handleRead_received w ((settled state).received c) whole (b := d)
      (by rw [← List.append_assoc] at small; exact small)
    rw [Conn.received_received] at split
    rw [serve_alive state] at between ⊢
    rw [serve_alive state]
    -- Where the first part fails the second one is not looked at any more.
    rcases split with fails | ⟨settled', resumes⟩
    · rw [serve_failed fails.left]
      exact fails.same.symm
    · rw [serve_alive settled'.here.error_]
      exact (resumes (between settled'.here.error_)).same

theorem SameOutcome.scansWhole {s t : Conn} (same : SameOutcome s t)
    (whole : s.http.error_ = false → s.http.ScansWhole) (alive : t.http.error_ = false) :
    t.http.ScansWhole := by
  have alive' := same.error_.symm.trans alive
  obtain ⟨channel, timer, http⟩ := (same.alike alive').http
  rw [http]
  exact whole alive'

theorem Takes.scansWhole {w : World} {s : Conn} {chunks : List Bytes} (takes : Takes w s chunks)
    (some : chunks ≠ []) (alive : s.http.error_ = false) : s.http.ScansWhole := by
  cases chunks with
  | nil => contradiction
  | cons c cs => exact (takes.1 alive).whole

/-- The first chunk of a run cut in two. -/
theorem serveAll_split {w : World} {s : Conn} {c d : Bytes} {chunks : List Bytes}
    (settled : s.http.error_ = false → Settled s) (takes : Takes w s ((c ++ d) :: chunks))
    (between : (serve w s c).http.error_ = false → (serve w s c).http.ScansWhole) :
    Takes w (serve w s c) (d :: chunks) ∧
      SameOutcome (serveAll w s ((c ++ d) :: chunks)) (serveAll w (serve w s c) (d :: chunks)) := by
  have same := serve_append settled takes.1 between
  refine ⟨⟨fun alive => ⟨between alive, ?_⟩, same.takes takes.2⟩, same.serveAll chunks⟩
  cases state : s.http.error_ with
  | true => rw [serve_failed state] at alive; exact nomatch state.symm.trans alive
  | false =>
    obtain ⟨whole, small⟩ := takes.1 state
    have fits : (s.received c).http.inBuffer_.length < 2 ^ 31 := by
      change (s.http.inBuffer_ ++ c).length < _
      simp only [List.length_append] at small ⊢
      omega
    rw [serve_alive state] at alive ⊢
    have settled' := handleRead_settled w ((settled state).received c) whole fits alive
    -- What is left of the first part is not longer than it was.
    have used := handleRead_input w (s.received c)
    rw [Conn.input_quiet settled'.quiet.reads,
      Conn.input_quiet (s := s.received c) (settled state).quiet.reads] at used
    change _ ≤ (s.http.inBuffer_ ++ c).length at used
    simp only [List.length_append] at small used ⊢
    omega

/-- Two ways of cutting the same bytes, by way of the cuts they have in common. -/
theorem serveAll_same {w : World} {cs ds : List Bytes} {s t : Conn} (same : SameOutcome s t)
    (settled : s.http.error_ = false → Settled s) (solid : [] ∉ cs) (solid' : [] ∉ ds)
    (bytes : cs.flatten = ds.flatten) (takes : Takes w s cs) (takes' : Takes w t ds) :
    SameOutcome (serveAll w s cs) (serveAll w t ds) := by
  induction size : cs.length + ds.length using Nat.strong_induction_on
    generalizing cs ds s t with
  | _ n ih =>
    -- The first piece of one cut is the start of that of the other: serve it in both, and go on
    -- with what is left of the longer one.
    have shorter {c a : Bytes} {cs ds : List Bytes} {s t : Conn} (same : SameOutcome s t)
        (settled : s.http.error_ = false → Settled s) (solid : [] ∉ cs) (solid' : [] ∉ ds)
        (rest : cs.flatten = a ++ ds.flatten) (size : cs.length + 1 + (ds.length + 1) = n)
        (takes : Takes w s (c :: cs)) (takes' : Takes w t ((c ++ a) :: ds)) :
        SameOutcome (serveAll w s (c :: cs)) (serveAll w t ((c ++ a) :: ds)) := by
      by_cases empty : a = []
      · subst empty
        rw [List.append_nil] at takes' ⊢
        have later := ih (cs.length + ds.length) (by omega) (same.serve c)
          (serve_settled settled takes.1) solid solid' rest takes.2 takes'.2 rfl
        exact later
      · have more : cs ≠ [] := by
          rintro rfl
          exact empty (List.append_eq_nil_iff.mp rest.symm).1
        obtain ⟨cutTakes, cutSame⟩ := serveAll_split (same.settled settled) takes'
          ((same.serve c).scansWhole (takes.2.scansWhole more))
        have solidA : [] ∉ a :: ds := by
          intro member
          rcases List.mem_cons.mp member with none | member
          · exact empty none.symm
          · exact solid' member
        have later := ih (cs.length + (a :: ds).length) (by simp only [List.length_cons]; omega)
          (same.serve c) (serve_settled settled takes.1) solid solidA rest takes.2 cutTakes rfl
        exact later.trans cutSame.symm
    cases cs with
    | nil =>
      cases ds with
      | nil => exact same
      | cons d ds =>
        refine absurd (List.append_eq_nil_iff.mp bytes.symm).1 fun none => solid' ?_
        rw [none]; exact List.mem_cons_self
    | cons c cs =>
      cases ds with
      | nil =>
        refine absurd (List.append_eq_nil_iff.mp bytes).1 fun none => solid ?_
        rw [none]; exact List.mem_cons_self
      | cons d ds =>
        have solidC : [] ∉ cs := fun member => solid (List.mem_cons_of_mem _ member)
        have solidD : [] ∉ ds := fun member => solid' (List.mem_cons_of_mem _ member)
        simp only [List.flatten_cons] at bytes
        simp only [List.length_cons] at size
        rcases List.append_eq_append_iff.mp bytes with ⟨a, rfl, rest⟩ | ⟨a, rfl, rest⟩
        · exact shorter same settled solidC solidD rest size takes takes'
        · exact (shorter same.symm (same.settled settled) solidD solidC rest (by omega) takes'
            takes).symm

/-! ### Events -/

/-- No event comes upon a header scan stopped half way, or upon a connection that holds so
much input with what it brings that the size is no `int`. -/
def Undisturbed (w : World) : Conn → List Arrival → Prop
  | _, [] => True
  | s, a :: as => (s.http.error_ = false →
      s.http.ScansWhole ∧ (s.meets a EPOLLIN).input < 2 ^ 31) ∧ Undisturbed w (arrive w s a) as

instance decideUndisturbed (w : World) :
    (s : Conn) → (as : List Arrival) → Decidable (Undisturbed w s as)
  | _, [] => .isTrue trivial
  | s, a :: as =>
    have := decideUndisturbed w (arrive w s a) as
    inferInstanceAs (Decidable (_ ∧ _))

/-- The events bring `S`, cut into chunks that are not empty. -/
def Cuts (as : List Arrival) (S : Bytes) : Prop :=
  ∃ chunks, List.Forall₂ Arrival.Brings as chunks ∧ [] ∉ chunks ∧ chunks.flatten = S

theorem delivered_size {rs : List ReadResult} {s : Bytes} (whole : delivered rs = some s) :
    (rs.map ReadResult.size).sum = s.length := by
  have read := readnFrom_input [] 0 rs
  rw [readnFrom_delivered whole] at read
  simpa using read.symm

theorem arrive_same {w : World} {s : Conn} {a : Arrival} {chunk : Bytes}
    (settled : s.http.error_ = false → Settled s) (brings : a.Brings chunk)
    (takes : s.http.error_ = false → s.http.Takes chunk) :
    SameOutcome (serve w s chunk) (arrive w s a) := by
  cases state : s.http.error_ with
  | true =>
    have stays : arrive w s a = s := if_pos state
    rw [serve_failed state, stays]
    exact ⟨rfl, rfl, rfl, fun alive => nomatch state.symm.trans alive⟩
  | false =>
    have small := (takes state).small
    rw [List.length_append] at small
    rw [serve_alive state]
    exact arrive_outcome (settled state) brings (by omega)

/-- Events bring chunks to the handler. -/
theorem arrivals_same {w : World} {s : Conn} {as : List Arrival} {chunks : List Bytes}
    (settled : s.http.error_ = false → Settled s)
    (brings : List.Forall₂ Arrival.Brings as chunks) (takes : Takes w s chunks) :
    SameOutcome (serveAll w s chunks) (arrivals w s as) := by
  induction brings generalizing s with
  | nil => exact ⟨rfl, rfl, rfl, fun alive => .refl (settled alive).quiet⟩
  | @cons a c as cs first rest ih =>
    have one := arrive_same (w := w) settled first takes.1
    have later := ih (one.settled (serve_settled settled takes.1)) (one.takes takes.2)
    exact (one.serveAll cs).trans later

theorem Undisturbed.takes {w : World} {s : Conn} {as : List Arrival} {chunks : List Bytes}
    (settled : s.http.error_ = false → Settled s)
    (brings : List.Forall₂ Arrival.Brings as chunks) (quiet : Undisturbed w s as) :
    Takes w s chunks := by
  induction brings generalizing s with
  | nil => trivial
  | @cons a c as cs first rest ih =>
    have takes : s.http.error_ = false → s.http.Takes c := by
      intro alive
      obtain ⟨whole, small⟩ := quiet.1 alive
      refine ⟨whole, ?_⟩
      rw [List.length_append, ← delivered_size first.reads]
      exact small
    -- The connection is then as after a call with the chunk.
    have one := arrive_same (w := w) settled first takes
    exact ⟨takes, one.symm.takes (ih (one.settled (serve_settled settled takes)) quiet.2)⟩

/-- A connection after `handNewConn` has made it and `newEvent` has run. -/
def accepted (this : ConnId) (loop : LoopId) (connfd : Fd) (now : Timeval) (epollCtl : Bool)
    (epoll : Epoll) : Conn :=
  newEvent ⟨.new this loop connfd, { Wire.idle with now := now, epollCtl := epollCtl }, epoll⟩

theorem accepted_settled (this : ConnId) (loop : LoopId) (connfd : Fd) (now : Timeval)
    (epollCtl : Bool) (epoll : Epoll) :
    Settled (accepted this loop connfd now epollCtl epoll) ∧
      (accepted this loop connfd now epollCtl epoll).http.ScansWhole ∧
      (accepted this loop connfd now epollCtl epoll).http.inBuffer_ = [] := by
  have quiet : Quiet { Wire.idle with now := now, epollCtl := epollCtl } := ⟨rfl, nofun⟩
  have made : Settled ⟨.new this loop connfd,
      { Wire.idle with now := now, epollCtl := epollCtl }, epoll⟩ :=
    ⟨quiet, ⟨rfl, rfl⟩, rfl, ⟨.inl rfl, fun _ => rfl, nofun⟩⟩
  -- `newEvent` registers the connection and does not touch what it parses.
  have alike := newEvent_alike made.quiet
  obtain ⟨channel, timer, http⟩ := alike.http
  refine ⟨alike.settled made, ?_, ?_⟩
  · unfold accepted; rw [http]; exact nofun
  · unfold accepted; rw [http]; rfl

/-- Two ways of cutting the input of a fresh connection look the same to its peer, when
no event of either comes upon a header scan stopped half way. -/
theorem fragmentation_independence {w : World} {this : ConnId} {loop : LoopId} {connfd : Fd}
    {now : Timeval} {epollCtl : Bool} {epoll : Epoll} {as bs : List Arrival} {S : Bytes}
    (cut : Cuts as S) (cut' : Cuts bs S)
    (quiet : Undisturbed w (accepted this loop connfd now epollCtl epoll) as)
    (quiet' : Undisturbed w (accepted this loop connfd now epollCtl epoll) bs) :
    SameOutcome (arrivals w (accepted this loop connfd now epollCtl epoll) as)
      (arrivals w (accepted this loop connfd now epollCtl epoll) bs) := by
  obtain ⟨settled, _⟩ := accepted_settled this loop connfd now epollCtl epoll
  obtain ⟨chunks, brings, solid, whole⟩ := cut
  obtain ⟨chunks', brings', solid', whole'⟩ := cut'
  have takes := quiet.takes (fun _ => settled) brings
  have takes' := quiet'.takes (fun _ => settled) brings'
  have same := arrivals_same (fun _ => settled) brings takes
  have same' := arrivals_same (fun _ => settled) brings' takes'
  -- Both cuts serve the same bytes.
  have cuts := serveAll_same (Alike.refl settled.quiet).same (fun _ => settled) solid solid'
    (whole.trans whole'.symm) takes takes'
  exact (same.symm.trans cuts).trans same'

/-! ### A header line cut in its name -/

/-- One read that brings the bytes, and a socket with room for all output. -/
def arrivalOf (chunk : Bytes) : Arrival where
  reads := match chunk with
    | [] => []
    | b :: bs => [.data b bs]
  writes := []
  now := ⟨0, 0⟩
  epollCtl := true

theorem arrivalOf_brings (chunk : Bytes) : (arrivalOf chunk).Brings chunk := by
  refine ⟨?_, nofun⟩
  cases chunk with
  | nil => rfl
  | cons b bs => simp [arrivalOf, delivered]

theorem arrivalOf_brings_each (chunks : List Bytes) :
    List.Forall₂ Arrival.Brings (chunks.map arrivalOf) chunks := by
  induction chunks with
  | nil => exact .nil
  | cons c cs ih => exact .cons (arrivalOf_brings c) ih

theorem cuts_arrivalOf {chunks : List Bytes} (solid : [] ∉ chunks) :
    Cuts (chunks.map arrivalOf) chunks.flatten :=
  ⟨chunks, arrivalOf_brings_each chunks, solid, rfl⟩

/-- A connection with nothing else in its loop. -/
def Conn.sample : Conn := accepted 0 0 5 ⟨0, 0⟩ true .new

/-- A request of which the second chunk begins behind the name of the last header. -/
def headerCut : List Bytes := [bytes "GET /hello HTTP/1.1\r\nA: b\r\nC", bytes ": d\r\n\r\n"]

theorem header_cut_changes_answer :
    Cuts ([headerCut.flatten].map arrivalOf) headerCut.flatten ∧
      Cuts (headerCut.map arrivalOf) headerCut.flatten ∧
      (arrivals .bare .sample ([headerCut.flatten].map arrivalOf)).http.error_ = false ∧
      (arrivals .bare .sample ([headerCut.flatten].map arrivalOf)).wire.sent = helloResponse ∧
      (arrivals .bare .sample (headerCut.map arrivalOf)).http.error_ = true ∧
      (arrivals .bare .sample (headerCut.map arrivalOf)).wire.sent ≠ helloResponse := by
  -- The same request, whole and cut inside its headers.
  have once : Cuts ([headerCut.flatten].map arrivalOf) [headerCut.flatten].flatten :=
    cuts_arrivalOf (by decide)
  have twice : Cuts (headerCut.map arrivalOf) headerCut.flatten :=
    cuts_arrivalOf (by decide)
  exact ⟨by simpa using once, twice, by decide, by decide, by decide,
    by decide⟩

/-- A request of which the second chunk begins with the header section. -/
def lineCut : List Bytes := [bytes "GET /hello HTTP/1.1\r", bytes "\nA: b\r\n\r\n"]

theorem fragmentation_independence_lineCut :
    SameOutcome (arrivals .bare .sample ([lineCut.flatten].map arrivalOf))
      (arrivals .bare .sample (lineCut.map arrivalOf)) := by
  have once : Cuts ([lineCut.flatten].map arrivalOf) [lineCut.flatten].flatten :=
    cuts_arrivalOf (by decide)
  have twice : Cuts (lineCut.map arrivalOf) lineCut.flatten := cuts_arrivalOf (by decide)
  exact fragmentation_independence (by simpa using once) twice (by decide)
    (by decide)

end LightAgent
