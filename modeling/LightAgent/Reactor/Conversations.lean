import LightAgent.HttpData.Conversation
import LightAgent.HttpData.Traffic
import LightAgent.Reactor.Lifecycle

/-!
# Conversations in the reactor

A connection of which only input is reported is answered as the service answers it, beside any
other connections, in any interleaving of the loops with the accepting thread.
-/
namespace LightAgent

open Library Function

/-- What happens to a connection that only sends. -/
def Encounter.IsInput : Encounter → Prop
  | .enters _ => True
  | .reported ready => ready.events = EPOLLIN
  | .handled _ => True
  | .expires _ => False

instance : (e : Encounter) → Decidable e.IsInput
  | .enters _ => .isTrue trivial
  | .reported ready => inferInstanceAs (Decidable (ready.events = EPOLLIN))
  | .handled _ => .isTrue trivial
  | .expires _ => .isFalse id

/-- What a call of `handleEvents` meets. -/
def Encounter.arrival : Encounter → Option Arrival
  | .handled a => some a
  | _ => none

/-! ### The connection on its own -/

/-- Nothing comes, and nothing is held up. -/
def Arrival.still : Arrival := ⟨[], [], ⟨0, 0⟩, true⟩

/-- A connection that has just entered its loop. -/
def Conn.entered (a : Arrival) : Conn := (newEvent (Conn.alone.given a)).given .still

theorem entered_idle (a : Arrival) : Idle (.entered a) := by
  obtain ⟨timer, http⟩ := (newEvent_entered (Conn.alone.given a)).http
  have entered : (Conn.entered a).http = _ := http
  refine ⟨⟨⟨rfl, nofun⟩, ⟨?_, ?_⟩, ?_, ⟨?_, ?_, ?_⟩⟩, ?_, ?_, ?_, ?_⟩
  all_goals rw [entered]
  · rfl
  · rfl
  · rfl
  · exact .inl rfl
  · exact fun _ => rfl
  · nofun
  · rfl
  · rfl
  · rfl
  · rfl

theorem entered_wire (a : Arrival) : (Conn.entered a).wire.sent = [] ∧
    (Conn.entered a).wire.calls = [] ∧ (Conn.entered a).wire.served = 0 := by
  have entered : (Conn.entered a).wire = (newEvent (Conn.alone.given a)).wire.meets .still := rfl
  rw [entered, (newEvent_entered (Conn.alone.given a)).wire]
  exact ⟨rfl, rfl, rfl⟩

/-- A call that does not fail keeps the entry, or closes the connection. -/
theorem handleEvents_keeps (w : World) {s : Conn} (alive : s.http.error_ = false) :
    ((handleEvents w s).http.error_ = false ∧
      (handleEvents w s).epoll.fd2http_ = s.epoll.fd2http_) ∨
      Closed (decided w s) (handleEvents w s) := by
  have frame := decided_frame w s
  cases handleEvents_handled w s with
  | ignored _ eq =>
    rw [eq]
    exact .inl ⟨alive, rfl⟩
  | rearmed events timeout _ exit _ modified =>
    obtain ⟨timer, http⟩ := modified.http
    refine .inl ⟨?_, modified.fd2http_.trans frame.fd2http_⟩
    rw [http]
    exact (Reactor.connExit_rearms exit).1
  | stranded _ exit eq =>
    rw [eq]
    exact .inl ⟨(connExit_strands.mp exit).1, frame.fd2http_⟩
  | closed _ _ closed => exact .inr closed

/-- The tables have a connection until it is closed, and it is closed where it fails. -/
structure Standing (s : Conn) : Prop where
  failed : s.http.error_ = true → ¬s.heard
  listed : s.http.connectionState_ ≠ .disconnected → s.listed
  entry : s.heard → s.listed

namespace Standing

variable {w : World} {s : Conn}

theorem closed {t : Conn} (closed : Closed s t) : Standing t := by
  have unheard := closed.unheard
  refine ⟨fun _ => unheard, fun there => absurd ?_ there, fun heard => absurd heard unheard⟩
  rw [closed.http]

theorem newEvent (alive : s.http.error_ = false) (held : s.http.channel_.holder_ = some s.http.this) :
    Standing (newEvent s) := by
  have entered := newEvent_entered s
  have effect := newEvent_effect s
  obtain ⟨timer, http⟩ := entered.http
  have listed : (LightAgent.newEvent s).listed := by
    unfold Conn.listed
    simp [entered.fd2http_, effect.fd_, effect.this, held]
  refine ⟨fun failed => ?_, fun _ => listed, fun _ => listed⟩
  rw [http] at failed
  exact absurd (alive.symm.trans failed) (by simp)

theorem reported (standing : Standing s) (ready : Ready) : Standing (s.reported ready) := by
  obtain ⟨channel, interest, same⟩ := s.reported_frame ready
  rw [same]
  exact ⟨standing.failed, standing.listed, standing.entry⟩

theorem handled (standing : Standing s) (heard : s.heard) (a : Arrival) :
    Standing (handleEvents w (s.given a)) := by
  have alive : s.http.error_ = false := by
    by_contra failed
    exact standing.failed (by simpa using failed) heard
  have effect := handleEvents_effect w (s.given a)
  rcases handleEvents_keeps w (s := s.given a) alive with ⟨still, kept⟩ | closes
  · have listed : (handleEvents w (s.given a)).listed := by
      unfold Conn.listed
      rw [kept, effect.fd_, effect.this]
      exact standing.entry heard
    refine ⟨fun failed => ?_, fun _ => listed, fun _ => listed⟩
    exact absurd (still.symm.trans failed) (by simp)
  · exact .closed closes

end Standing

theorem Lifecycle.standing {w : World} {es : List Encounter} (life : Lifecycle w es)
    (began : es ≠ []) : Standing (Conn.after w es) := by
  induction life with
  | nil => exact absurd rfl began
  | @concat es e life follows ih =>
    rw [Conn.after_concat]
    cases e with
    | enters a =>
      have first : es = [] := follows
      rw [first]
      exact Standing.newEvent rfl rfl
    | reported ready => exact (ih follows.began).reported ready
    | handled a =>
      obtain ⟨⟨before, ready, split⟩, heard⟩ := follows
      exact (ih (by simp [split])).handled heard a
    | expires a => exact .closed (handleClose_closed _)

/-! ### What its input makes of it -/

theorem same_still {s : Conn} (settled : s.http.error_ = false → Settled s) :
    SameOutcome s (s.given .still) := by
  refine ⟨rfl, rfl, rfl, fun alive => ?_⟩
  exact ⟨⟨s.http.channel_, s.http.timer_, rfl⟩, rfl, rfl, rfl, (settled alive).quiet, rfl, nofun⟩

theorem reported_still {s : Conn} (ready : Ready) :
    Alike (s.given .still) ((s.reported ready).given .still) := by
  obtain ⟨channel, interest, same⟩ := s.reported_frame ready
  rw [same]
  exact ⟨⟨channel, s.http.timer_, rfl⟩, rfl, rfl, rfl, ⟨rfl, nofun⟩, rfl, nofun⟩

/-- The call behind a report of input serves the chunk it brings. -/
theorem handled_serves {w : World} {s t : Conn} {ready : Ready} {a : Arrival} {chunk : Bytes}
    (input : ready.events = EPOLLIN) (heard : s.heard)
    (alive : (s.reported ready).http.error_ = false)
    (same : SameOutcome t ((s.reported ready).given .still))
    (settled : ((s.reported ready).given .still).http.error_ = false →
      Settled ((s.reported ready).given .still))
    (brings : a.Brings chunk)
    (room : ((s.reported ready).given .still).http.error_ = false →
      ((s.reported ready).given .still).http.Takes chunk) :
    let left := (handleEvents w ((s.reported ready).given a)).given .still
    SameOutcome (serve w t chunk) left ∧ (left.http.error_ = false → Settled left) := by
  have reported : s.reported ready = { s.fired with http := { s.http with
      channel_ := { s.http.channel_ with revents_ := EPOLLIN, events_ := 0 } } } := by
    unfold Conn.reported
    rw [if_pos heard, input]
  -- The event is an arrival of the chunk.
  have arrives : handleEvents w ((s.reported ready).given a) =
      arrive w ((s.reported ready).given .still) a := by
    rw [reported] at alive ⊢
    refine (if_neg ?_).symm
    change ¬s.http.error_ = true
    rw [show s.http.error_ = false from alive]
    decide
  have one := arrive_same (w := w) settled brings room
  have settled' := one.settled (serve_settled settled room)
  have still := same_still settled'
  rw [arrives]
  exact ⟨((same.serve chunk).trans one).trans still, still.settled settled'⟩

/-- The connection is to its peer what the handler makes of the chunks its calls have brought. -/
theorem Lifecycle.served {w : World} {es : List Encounter} (life : Lifecycle w es)
    (input : ∀ e ∈ es, e.IsInput) (began : es ≠ []) : ∃ a₀, ∀ chunks,
      List.Forall₂ Arrival.Brings (es.filterMap Encounter.arrival) chunks →
      Takes w (.entered a₀) chunks →
        SameOutcome (serveAll w (.entered a₀) chunks) ((Conn.after w es).given .still) ∧
        (((Conn.after w es).given .still).http.error_ = false →
          Settled ((Conn.after w es).given .still)) := by
  induction life with
  | nil => exact absurd rfl began
  | @concat es e life follows ih =>
    have before := fun e member => input e (List.mem_append_left _ member)
    have last := input e (by simp)
    simp only [Conn.after_concat, List.filterMap_append]
    cases e with
    | expires a => exact absurd last id
    | enters a =>
      have first : es = [] := follows
      subst first
      refine ⟨a, fun chunks brings takes => ?_⟩
      cases brings
      have settled := (entered_idle a).settled
      exact ⟨(Alike.refl settled.quiet).same, fun _ => settled⟩
    | reported ready =>
      obtain ⟨a₀, served⟩ := ih before follows.began
      refine ⟨a₀, fun chunks brings takes => ?_⟩
      have none : [Encounter.reported ready].filterMap Encounter.arrival = [] := rfl
      rw [none, List.append_nil] at brings
      obtain ⟨same, settled⟩ := served chunks brings takes
      have alike := reported_still (s := Conn.after w es) ready
      exact ⟨same.trans alike.same, alike.same.settled settled⟩
    | handled a =>
      obtain ⟨⟨start, ready, rfl⟩, heard⟩ := follows
      have reads := before (.reported ready) (by simp)
      have alive : (Conn.after w (start ++ [.reported ready])).http.error_ = false := by
        by_contra failed
        exact (life.standing (by simp)).failed (by simpa using failed) heard
      obtain ⟨a₀, served⟩ := ih before (by simp)
      refine ⟨a₀, fun chunks brings takes => ?_⟩
      -- The last chunk comes upon what the others have left.
      have front := (List.forall₂_take_append chunks _ _ brings.flip).flip
      have back := List.forall₂_drop_append chunks _ _ brings.flip
      rw [← List.take_append_drop (List.filterMap Encounter.arrival (start ++
        [.reported ready])).length chunks] at takes ⊢
      generalize chunks.take _ = cs, chunks.drop _ = ds at front back takes ⊢
      cases back with
      | @cons chunk _ _ _ last rest =>
        cases rest
        obtain ⟨early, late⟩ := takes_append.mp takes
        obtain ⟨same, settled⟩ := served cs front early
        rw [Conn.after_concat, Conn.encounter] at heard alive same settled ⊢
        have heard' := (Conn.reported_heard _ ready).mp heard
        have whole : serveAll w (.entered a₀) (cs ++ [chunk]) =
            serve w (serveAll w (.entered a₀) cs) chunk := by simp [serveAll]
        rw [whole]
        exact handled_serves reads heard' alive same settled last (same.takes late).1

/-- It has done what the service does. -/
theorem Lifecycle.done {w : World} {es : List Encounter} {qs : List ClientRequest}
    {chunks : List Bytes} (life : Lifecycle w es) (input : ∀ e ∈ es, e.IsInput)
    (brings : List.Forall₂ Arrival.Brings (es.filterMap Encounter.arrival) chunks)
    (reads : ReadApart qs chunks) :
    (Conn.after w es).wire.sent = (converse w 0 qs).sent ∧
      (Conn.after w es).wire.calls = (converse w 0 qs).calls ∧
      (es ≠ [] → (converse w 0 qs).refusal = none → (Conn.after w es).listed) := by
  by_cases began : es = []
  · subst began
    cases brings
    -- Without bytes there are no requests.
    have none : qs = [] := by
      cases qs with
      | nil => rfl
      | cons q qs =>
        have empty := List.flatMap_eq_nil_iff.mp reads.whole.symm q List.mem_cons_self
        exact absurd empty q.text_ne_nil
    rw [none]
    exact ⟨rfl, rfl, fun some => absurd rfl some⟩
  · obtain ⟨a₀, served⟩ := life.served input began
    have idle := entered_idle a₀
    obtain ⟨sent, calls, count⟩ := entered_wire a₀
    have takes := reads.takes (w := w) idle
    have same := (arrivals_same (fun _ => idle.settled) brings takes).symm.trans
      (served chunks brings takes).1
    have done := same.done (reads.done (w := w) idle brings)
    rw [count] at done
    refine ⟨?_, ?_, fun _ answered => ?_⟩
    · exact done.sent.trans (by rw [sent, List.nil_append])
    · exact done.calls.trans (by rw [calls, List.nil_append])
    · have here := (done.idle answered).settled.here.connectionState_
      refine (life.standing began).listed fun gone => ?_
      cases gone.symm.trans here

namespace Reactor

variable {r r' : Reactor} {c : ConnId} {w : ConnId → World} {l : Label}

/-! ### What a run sends -/

/-- What a handler of the connection adds to this part of what its socket has seen. -/
def adds {α : Type} (part : Wire → List α) (w : ConnId → World) (c : ConnId) (r : Reactor)
    (l : Label) : List α :=
  match r.handling l with
  | some (d, s) => if d = c then (part (handleEvents (w d) s).wire).drop (part s.wire).length else []
  | none => []

/-- The bytes a step sends on the connection. -/
def sends : (ConnId → World) → ConnId → Reactor → Label → Bytes := adds Wire.sent

/-- The requests of the connection that a step hands to the gateway. -/
def asks : (ConnId → World) → ConnId → Reactor → Label → List LightAgentGateway.Request :=
  adds Wire.calls

/-- Only a handled event hands the connection what arrives. -/
theorem encounters_calm {e : Encounter} (other : ∀ ℓ a, l ≠ .handle ℓ a)
    (member : e ∈ encounters c r l) : e.arrival = none := by
  cases encounters_occurs member with
  | reported _ _ _ => rfl
  | handled _ => exact absurd rfl (other _ _)
  | enters _ => rfl
  | expires _ => rfl

/-- A part that does not depend on what the kernel does next, and that handlers add to. -/
structure Recorded {α : Type} (part : Wire → List α) : Prop where
  idle : part .idle = []
  meets : ∀ wire a, part (wire.meets a) = part wire
  grows : ∀ {s s' : Conn}, Grows s s' → part s.wire <+: part s'.wire

namespace Recorded

variable {α : Type} {part : Wire → List α}

/-- Only `handleEvents` adds to it. -/
theorem encounter (recorded : Recorded part) (w : World) (s : Conn) {e : Encounter}
    (calm : e.arrival = none) : part (s.encounter w e).wire = part s.wire := by
  cases e with
  | enters a =>
    change part (newEvent (s.given a)).wire = _
    rw [(newEvent_entered (s.given a)).wire]
    exact recorded.meets s.wire a
  | reported ready =>
    change part (s.reported ready).wire = _
    obtain ⟨channel, interest, same⟩ := s.reported_frame ready
    rw [same]
  | handled a => cases calm
  | expires a =>
    change part (handleClose (s.expired.given a)).wire = _
    rw [handleClose_wire]
    exact recorded.meets s.wire a

theorem encounters (recorded : Recorded part) (w : World) {es : List Encounter}
    (calm : ∀ e ∈ es, e.arrival = none) (s : Conn) :
    part (es.foldl (Conn.encounter w) s).wire = part s.wire := by
  induction es generalizing s with
  | nil => rfl
  | cons e es ih =>
    rw [List.foldl_cons, ih (fun d member => calm d (List.mem_cons_of_mem _ member))]
    exact recorded.encounter w s (calm e List.mem_cons_self)

/-- What a step adds is what its encounter adds to the connection on its own. -/
theorem step (recorded : Recorded part) (sound : r.Sound) (timed : r.Timed)
    (taken : step w r l = some r') {s : Conn}
    (mirrors : ∀ cl, r.conns c = some cl → Mirrors r cl s) :
    part ((Reactor.encounters c r l).foldl (Conn.encounter (w c)) s).wire =
      part s.wire ++ adds part w c r l := by
  -- Where no handler of the connection is called.
  have calm (silent : adds part w c r l = [])
      (calm : ∀ e ∈ Reactor.encounters c r l, e.arrival = none) :
      part ((Reactor.encounters c r l).foldl (Conn.encounter (w c)) s).wire =
        part s.wire ++ adds part w c r l := by
    rw [silent, List.append_nil]
    exact recorded.encounters (w c) calm s
  cases l with
  | handle ℓ a =>
    by_cases own : r.subject (.handle ℓ a) = some c
    · have single : Reactor.encounters c r (.handle ℓ a) = [.handled a] := if_pos own
      cases step_steps taken with
      | handle _ _ d ret r₁ point called =>
        obtain rfl : d = c := by simpa [subject, point, LoopPoint.ret] using own
        obtain ⟨cl, alive, rfl, _, handled, _⟩ := sound.handle_inv point called
        obtain ⟨counterpart, order⟩ := mirrors cl alive
        obtain ⟨link, ordered⟩ := order.given a
        have before := counterpart.elsewhere.wire
        have left := ((counterpart.given a).handleEvents (w d)
          (timed.conn sound alive a) ordered).elsewhere.wire
        change (handleEvents (w d) (s.given a)).wire =
          (handleEvents (w d) (cl.conn a (r.loops cl.http.loop_).epoll)).wire at left
        have kept : part (cl.conn a (r.loops cl.http.loop_).epoll).wire = part s.wire := by
          rw [before]
          exact recorded.meets cl.wire a
        have grows := recorded.grows
          (Grows.handleEvents (w d) (cl.conn a (r.loops cl.http.loop_).epoll))
        unfold adds
        rw [single, handled]
        change part (handleEvents (w d) (s.given a)).wire = part s.wire ++ if d = d then _ else _
        rw [if_pos rfl, left, ← kept]
        exact List.prefix_append_drop grows
    · refine calm ?_ ?_
      · unfold adds
        cases handled : r.handling (.handle ℓ a) with
        | none => rfl
        | some called =>
          obtain ⟨d, t⟩ := called
          exact if_neg fun same => own ((handling_handle handled).trans (congrArg some same))
      · rw [show Reactor.encounters c r (.handle ℓ a) = [] from if_neg own]
        simp
  | _ => exact calm rfl fun e member => encounters_calm (by simp) member

/-- What a run adds is what its encounters add to the connection on its own. -/
theorem exec (recorded : Recorded part) {ls : List Label} (run : (machine w).exec new ls = some r)
    (c : ConnId) : (machine w).output (adds part w c) new ls =
      part (Conn.after (w c) (history w c ls)).wire := by
  induction ls using List.reverseRecOn generalizing r with
  | nil => exact recorded.idle.symm
  | append_singleton ls l ih =>
    obtain ⟨r₁, front, taken⟩ := Machine.exec_concat run
    obtain ⟨sound, timed, _⟩ := exec_owned front
    have grows := recorded.step sound timed taken (exec_mirrors front c).2
    have last : (machine w).output (adds part w c) r₁ [l] = adds part w c r₁ l :=
      (Machine.output_cons _ taken []).trans (List.append_nil _)
    rw [Machine.output_append _ front, last, ih front, history_concat front taken]
    unfold Conn.after at grows ⊢
    rw [List.foldl_append, grows]

end Recorded

end Reactor
end LightAgent
