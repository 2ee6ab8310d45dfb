import LightAgent.HttpData.Control

/-!
# What a handler does to its loop

`newEvent`, `handleEvents` and `handleClose` as their loop sees them: the poller tables
at the descriptor of the connection, the kernel registration, and the timer.
-/
namespace LightAgent

open Library Function

/-! ### Poller operations -/

theorem add_timer_eq (s : Conn) (timeout : Nat) : ∃ timer tm, add_timer s timeout =
    ⟨{ s.http with timer_ := timer }, s.wire, { s.epoll with timerManager_ := tm }⟩ := by
  unfold add_timer
  split
  · exact ⟨_, _, rfl⟩
  · exact ⟨s.http.timer_, s.epoll.timerManager_, rfl⟩

/-- The members `epoll_add` and `epoll_mod` change. -/
def HttpData.told (h : HttpData) (timer : Option TimerId) : HttpData :=
  { h with channel_ := { h.channel_ with lastEvents_ := h.channel_.events_ }, timer_ := timer }

/-- What the poller hears of the events of the channel: nothing where they are those of
the last time, else what `epoll_ctl` makes of them. -/
inductive Told (s s' : Conn) : Prop
  | before : s.http.channel_.lastEvents_ = s.http.channel_.events_ →
      s'.epoll.fd2chan_ = s.epoll.fd2chan_ → s'.epoll.interest = s.epoll.interest → Told s s'
  | registered : s.wire.epollCtl = true → s'.epoll.fd2chan_ = s.epoll.fd2chan_ →
      s'.epoll.interest =
        update s.epoll.interest s.http.fd_ (some ⟨s.http.channel_.events_, true⟩) → Told s s'
  | dropped : s.wire.epollCtl = false →
      s'.epoll.fd2chan_ = update s.epoll.fd2chan_ s.http.fd_ none →
      s'.epoll.interest = s.epoll.interest → Told s s'

/-- The effect of `epoll_mod`. -/
structure Modified (s : Conn) (timeout : Nat) (s' : Conn) : Prop where
  http : ∃ timer, s'.http = s.http.told timer
  timers : SameTimer (add_timer s timeout) s'
  fd2http_ : s'.epoll.fd2http_ = s.epoll.fd2http_
  poller : Told s s'

theorem epoll_mod_modified (s : Conn) {timeout : Nat} (positive : 0 < timeout) :
    Modified s timeout (epoll_mod s timeout) := by
  obtain ⟨timer, tm, timed⟩ := add_timer_eq s timeout
  have eq : epoll_mod s timeout = (if (equalAndUpdateLastEvents (add_timer s timeout)).1 then
      (equalAndUpdateLastEvents (add_timer s timeout)).2 else
      (equalAndUpdateLastEvents (add_timer s timeout)).2.control) := by
    unfold epoll_mod
    rw [if_pos positive]
  -- Without a change of the events `epoll_ctl` is not called.
  by_cases same : s.http.channel_.lastEvents_ = s.http.channel_.events_
  · have updated : (equalAndUpdateLastEvents (add_timer s timeout)).1 = true := by
      rw [timed]; exact decide_eq_true same
    rw [eq, if_pos updated]
    refine ⟨⟨timer, ?_⟩, ⟨?_, ?_⟩, ?_, .before same ?_ ?_⟩
    all_goals rw [timed]; rfl
  · have updated : ¬(equalAndUpdateLastEvents (add_timer s timeout)).1 = true := by
      rw [timed]; simpa [equalAndUpdateLastEvents] using same
    have calls : (equalAndUpdateLastEvents (add_timer s timeout)).2.wire.epollCtl =
        s.wire.epollCtl := by rw [timed]; rfl
    rw [eq, if_neg updated]
    unfold Conn.control
    rw [calls]
    cases called : s.wire.epollCtl with
    | true =>
      refine ⟨⟨timer, ?_⟩, ⟨?_, ?_⟩, ?_, .registered called ?_ ?_⟩
      all_goals rw [timed]; rfl
    | false =>
      refine ⟨⟨timer, ?_⟩, ⟨?_, ?_⟩, ?_, .dropped called ?_ ?_⟩
      all_goals rw [timed]; rfl

/-- The effect of `newEvent`: a first timer, the entry of the connection, and a first
registration that is good for one event. -/
structure Entered (s s' : Conn) : Prop where
  http : ∃ timer, s'.http = (s.setEvents DEFAULT_EVENT).http.told timer
  wire : s'.wire = s.wire
  timers : SameTimer (add_timer s DEFAULT_EXPIRED_TIME) s'
  fd2http_ : s'.epoll.fd2http_ = update s.epoll.fd2http_ s.http.fd_ s.http.channel_.holder_
  poller : (s.wire.epollCtl = true ∧
      s'.epoll.fd2chan_ = update s.epoll.fd2chan_ s.http.fd_ (some s.http.this) ∧
      s'.epoll.interest = update s.epoll.interest s.http.fd_ (some ⟨DEFAULT_EVENT, true⟩)) ∨
    (s.wire.epollCtl = false ∧ s'.epoll.fd2chan_ = update s.epoll.fd2chan_ s.http.fd_ none ∧
      s'.epoll.interest = s.epoll.interest)

theorem newEvent_entered (s : Conn) : Entered s (newEvent s) := by
  -- `add_timer` does not look at the events.
  have asked : SameTimer (add_timer s DEFAULT_EXPIRED_TIME)
      (add_timer (s.setEvents DEFAULT_EVENT) DEFAULT_EXPIRED_TIME) := by
    unfold add_timer
    dsimp only [Conn.setEvents]
    cases s.http.channel_.holder_ with
    | none => exact ⟨rfl, rfl⟩
    | some holder => exact ⟨rfl, rfl⟩
  obtain ⟨timer, tm, timed⟩ := add_timer_eq (s.setEvents DEFAULT_EVENT) DEFAULT_EXPIRED_TIME
  have eq : newEvent s = Conn.control ⟨(s.setEvents DEFAULT_EVENT).http.told timer, s.wire,
      { s.epoll with
        timerManager_ := tm
        fd2http_ := update s.epoll.fd2http_ s.http.fd_ s.http.channel_.holder_
        fd2chan_ := update s.epoll.fd2chan_ s.http.fd_ (some s.http.this) }⟩ := by
    unfold newEvent epoll_add
    rw [timed]
    rfl
  rw [timed] at asked
  rw [eq]
  unfold Conn.control
  dsimp only
  -- Where `epoll_ctl` fails the channel is taken out again, and `fd2http_` keeps its entry.
  cases called : s.wire.epollCtl with
  | true => exact ⟨⟨timer, rfl⟩, rfl, asked.trans ⟨rfl, rfl⟩, rfl, .inl ⟨called, rfl, rfl⟩⟩
  | false =>
    exact ⟨⟨timer, rfl⟩, rfl, asked.trans ⟨rfl, rfl⟩, rfl, .inr ⟨called, update_idem _ _ _, rfl⟩⟩

/-- The effect of `handleClose`: the entries are gone. -/
structure Closed (s s' : Conn) : Prop where
  http : s'.http = { s.http with connectionState_ := .disconnected }
  wire : s'.wire = s.wire
  timers : SameTimer s s'
  fd2http_ : s'.epoll.fd2http_ = update s.epoll.fd2http_ s.http.fd_ none
  fd2chan_ : s'.epoll.fd2chan_ = update s.epoll.fd2chan_ s.http.fd_ none
  interest : s'.epoll.interest = s.epoll.interest ∨
    s'.epoll.interest = update s.epoll.interest s.http.fd_ none

theorem epoll_del_epoll (s : Conn) : ∃ interest,
    (interest = s.epoll.interest ∨ interest = update s.epoll.interest s.http.fd_ none) ∧
    (epoll_del s).epoll = { s.epoll with
      fd2chan_ := update s.epoll.fd2chan_ s.http.fd_ none
      fd2http_ := update s.epoll.fd2http_ s.http.fd_ none
      interest := interest } := by
  unfold epoll_del
  dsimp only
  split
  · exact ⟨_, .inr rfl, rfl⟩
  · exact ⟨_, .inl rfl, rfl⟩

theorem handleClose_closed (s : Conn) : Closed s (handleClose s) := by
  let t : Conn := s.setHttp { s.http with connectionState_ := .disconnected }
  have http : (handleClose s).http = t.http := handleClose_http s
  obtain ⟨interest, kept, epoll⟩ := epoll_del_epoll t
  have epoll : (handleClose s).epoll = _ := epoll
  constructor
  · exact http
  · exact handleClose_wire s
  · exact ⟨by rw [http]; rfl, by rw [epoll]; rfl⟩
  · rw [epoll]; rfl
  · rw [epoll]; rfl
  · rw [epoll]; exact kept

/-! ### The event handler -/

/-- The connection of an event when `handleConn` decides what becomes of it. -/
def decided (w : World) (s : Conn) : Conn := seperateTimer (dispatch w (s.setEvents 0))

theorem decided_frame (w : World) (s : Conn) : HandlerFrame s (decided w s) :=
  ((setEvents_frame s 0).trans (dispatch_frame w _)).trans (seperateTimer_frame _)

theorem decided_timer (w : World) (s : Conn) : SameTimer (seperateTimer s) (decided w s) :=
  ((setEvents_frame s 0).trans (dispatch_frame w _)).timers

/-- `handleConn` is entered with the peer gone and output that is still to be written. -/
def HttpData.OutputLeft (h : HttpData) : Prop :=
  h.error_ = false ∧ h.connectionState_ = .disconnecting ∧ h.channel_.events_.has EPOLLOUT

instance (h : HttpData) : Decidable h.OutputLeft := inferInstanceAs (Decidable (_ ∧ _))

theorem connExit_strands {h : HttpData} : h.connExit = .strands ↔ h.OutputLeft := by
  unfold HttpData.connExit HttpData.OutputLeft
  -- The order of the tests in `handleConn`: `error_` first, then the state.
  cases h.error_ with
  | true => simp
  | false =>
    cases h.connectionState_ with
    | connected =>
      rw [if_pos ⟨rfl, rfl⟩]
      refine iff_of_false ?_ nofun
      repeat' split
      all_goals nofun
    | disconnecting => simp
    | disconnected => simp

/-- The branch is taken by what `handleConn` is entered with. -/
theorem decided_strands {w : World} {s : Conn} :
    (decided w s).http.connExit = .strands ↔ (dispatch w (s.setEvents 0)).http.OutputLeft := by
  obtain ⟨timer, http⟩ := seperateTimer_http (dispatch w (s.setEvents 0))
  rw [connExit_strands, decided, http]
  rfl

/-- The ends of `handleEvents`. -/
inductive Handled (w : World) (s s' : Conn) : Prop
  | ignored : returnsEarly s.http.channel_.revents_ = true → s' = s.setEvents 0 → Handled w s s'
  | rearmed (events : Events) (timeout : Nat) :
      returnsEarly s.http.channel_.revents_ = false →
      (decided w s).http.connExit = .rearms events timeout → 0 < timeout →
      Modified ((decided w s).setEvents events) timeout s' → Handled w s s'
  | stranded : returnsEarly s.http.channel_.revents_ = false →
      (decided w s).http.connExit = .strands →
      s' = (decided w s).setEvents (EPOLLOUT ||| EPOLLET) → Handled w s s'
  | closed : returnsEarly s.http.channel_.revents_ = false →
      (decided w s).http.connExit = .closes → Closed (decided w s) s' → Handled w s s'

theorem connExit_timeout {h : HttpData} {events : Events} {timeout : Nat}
    (exit : h.connExit = .rearms events timeout) : 0 < timeout := by
  unfold HttpData.connExit at exit
  dsimp only at exit
  repeat' split at exit
  all_goals cases exit
  all_goals decide

theorem handleEvents_handled (w : World) (s : Conn) : Handled w s (handleEvents w s) := by
  cases early : returnsEarly s.http.channel_.revents_ with
  | true =>
    refine .ignored early ?_
    exact if_pos early
  | false =>
    have conn : handleEvents w s = handleConn (dispatch w (s.setEvents 0)) := by
      refine if_neg ?_
      change ¬returnsEarly s.http.channel_.revents_ = true
      rw [early]
      decide
    rw [conn]
    -- Behind the handlers `handleConn` takes one of its three ends.
    cases exit : (decided w s).http.connExit with
    | rearms events timeout =>
      have positive := connExit_timeout exit
      rw [handleConn_rearms exit]
      exact .rearmed events timeout early exit positive (epoll_mod_modified _ positive)
    | strands => exact .stranded early exit (handleConn_strands exit)
    | closes =>
      rw [handleConn_closes exit]
      exact .closed early exit (handleClose_closed _)

/-! ### What all handlers have in common -/

/-- Queued nodes refer to what they referred to, or to this connection. -/
def KeepsRefs (s s' : Conn) : Prop :=
  ∀ node ∈ s'.epoll.timerManager_.timerNodeQueue, ∀ c, node.SPHttpData = some c →
    c = s.http.this ∨ ∃ old ∈ s.epoll.timerManager_.timerNodeQueue, old.SPHttpData = some c

theorem SameTimer.keepsRefs {s s' : Conn} (same : SameTimer s s') : KeepsRefs s s' := by
  intro node queued c refers
  rw [same.timerManager_] at queued
  exact .inr ⟨node, queued, refers⟩

theorem KeepsRefs.trans {s₁ s₂ s₃ : Conn} (first : KeepsRefs s₁ s₂) (second : KeepsRefs s₂ s₃)
    (this : s₂.http.this = s₁.http.this) : KeepsRefs s₁ s₃ := by
  intro node queued c refers
  rcases second node queued c refers with own | ⟨old, queued, refers⟩
  · exact .inl (own.trans this)
  · exact first old queued c refers

theorem seperateTimer_keepsRefs (s : Conn) : KeepsRefs s (seperateTimer s) := by
  unfold seperateTimer
  split
  next id _ =>
    intro node queued c refers
    obtain ⟨old, member, eq⟩ := List.mem_map.mp queued
    split at eq
    · subst eq; cases refers
    · subst eq; exact .inr ⟨old, member, refers⟩
  next => exact (SameTimer.refl s).keepsRefs

theorem add_timer_keepsRefs (s : Conn) (timeout : Nat) : KeepsRefs s (add_timer s timeout) := by
  unfold add_timer
  split
  · intro node queued c refers
    rcases List.mem_append.mp queued with old | new
    · exact .inr ⟨node, old, refers⟩
    · rw [List.mem_singleton.mp new] at refers
      exact .inl (Option.some.inj refers).symm
  · exact (SameTimer.refl s).keepsRefs

/-- The tables as a handler leaves them: nothing but the entries of its own descriptor
changes, and a channel is listed with its connection only. -/
structure TableEffect (s s' : Conn) : Prop where
  this : s'.http.this = s.http.this
  loop_ : s'.http.loop_ = s.http.loop_
  fd_ : s'.http.fd_ = s.http.fd_
  holder_ : s'.http.channel_.holder_ = s.http.channel_.holder_
  http : ∃ entry, s'.epoll.fd2http_ = update s.epoll.fd2http_ s.http.fd_ entry ∧
    (entry = s.epoll.fd2http_ s.http.fd_ ∨ entry = none ∨ entry = s.http.channel_.holder_)
  chan : ∃ entry, s'.epoll.fd2chan_ = update s.epoll.fd2chan_ s.http.fd_ entry ∧
    (entry = none ∨
      (entry = s.epoll.fd2chan_ s.http.fd_ ∧
        s'.epoll.fd2http_ s.http.fd_ = s.epoll.fd2http_ s.http.fd_) ∨
      (entry = some s.http.this ∧ s'.epoll.fd2http_ s.http.fd_ = s.http.channel_.holder_))
  refs : KeepsRefs s s'

theorem Closed.effect {s s' : Conn} (closed : Closed s s') : TableEffect s s' := by
  refine ⟨?_, ?_, ?_, ?_, ⟨none, closed.fd2http_, .inr (.inl rfl)⟩, ⟨none, closed.fd2chan_, .inl rfl⟩,
    closed.timers.keepsRefs⟩
  all_goals rw [closed.http]

theorem newEvent_effect (s : Conn) : TableEffect s (newEvent s) := by
  have entered := newEvent_entered s
  obtain ⟨timer, http⟩ := entered.http
  have here : (newEvent s).epoll.fd2http_ s.http.fd_ = s.http.channel_.holder_ := by
    rw [entered.fd2http_, update_self]
  refine ⟨?_, ?_, ?_, ?_, ⟨_, entered.fd2http_, .inr (.inr rfl)⟩, ?_,
    (add_timer_keepsRefs s _).trans entered.timers.keepsRefs ?_⟩
  · rw [http]; rfl
  · rw [http]; rfl
  · rw [http]; rfl
  · rw [http]; rfl
  -- A channel that is in the table has its holder there too.
  · rcases entered.poller with ⟨_, chan, _⟩ | ⟨_, chan, _⟩
    · exact ⟨_, chan, .inr (.inr ⟨rfl, here⟩)⟩
    · exact ⟨_, chan, .inl rfl⟩
  · obtain ⟨_, _, eq⟩ := add_timer_eq s DEFAULT_EXPIRED_TIME
    rw [eq]

theorem Modified.effect {s s' : Conn} {timeout : Nat} (modified : Modified s timeout s') :
    TableEffect s s' := by
  obtain ⟨timer, http⟩ := modified.http
  have kept : s'.epoll.fd2http_ s.http.fd_ = s.epoll.fd2http_ s.http.fd_ := by
    rw [modified.fd2http_]
  refine ⟨?_, ?_, ?_, ?_, ⟨_, ?_, .inl rfl⟩, ?_,
    (add_timer_keepsRefs s _).trans modified.timers.keepsRefs ?_⟩
  · rw [http]; rfl
  · rw [http]; rfl
  · rw [http]; rfl
  · rw [http]; rfl
  · rw [update_eq_self, modified.fd2http_]
  -- Only a failed `epoll_ctl` changes the entry of the descriptor.
  · cases modified.poller with
    | before _ chan _ => exact ⟨_, by rw [update_eq_self, chan], .inr (.inl ⟨rfl, kept⟩)⟩
    | registered _ chan _ => exact ⟨_, by rw [update_eq_self, chan], .inr (.inl ⟨rfl, kept⟩)⟩
    | dropped _ chan _ => exact ⟨_, chan, .inl rfl⟩
  · obtain ⟨_, _, eq⟩ := add_timer_eq s timeout
    rw [eq]

/-- The handlers before `handleConn` leave the tables alone. -/
theorem TableEffect.after {s d s' : Conn} (frame : HandlerFrame s d) (refs : KeepsRefs s d)
    (effect : TableEffect d s') : TableEffect s s' := by
  obtain ⟨events, channel⟩ := frame.channel_
  have holder : d.http.channel_.holder_ = s.http.channel_.holder_ := by rw [channel]
  obtain ⟨this, loop_, fd_, holder_, http, chan, keeps⟩ := effect
  rw [frame.fd2http_, frame.fd_, holder] at http
  rw [frame.fd2chan_, frame.fd2http_, frame.fd_, frame.this, holder] at chan
  exact ⟨this.trans frame.this, loop_.trans frame.loop_, fd_.trans frame.fd_,
    holder_.trans holder, http, chan, refs.trans keeps frame.this⟩

theorem TableEffect.refl (s : Conn) : TableEffect s s :=
  ⟨rfl, rfl, rfl, rfl, ⟨_, (update_eq_self _ _).symm, .inl rfl⟩,
    ⟨_, (update_eq_self _ _).symm, .inr (.inl ⟨rfl, rfl⟩)⟩, (SameTimer.refl s).keepsRefs⟩

theorem handleEvents_effect (w : World) (s : Conn) : TableEffect s (handleEvents w s) := by
  have frame := decided_frame w s
  have refs : KeepsRefs s (decided w s) :=
    (seperateTimer_keepsRefs s).trans (decided_timer w s).keepsRefs (seperateTimer_frame s).this
  have asked (events : Events) : HandlerFrame s ((decided w s).setEvents events) :=
    frame.trans (setEvents_frame _ events)
  -- Up to `handleConn` the tables stay; its end decides what happens to them.
  cases handleEvents_handled w s with
  | ignored _ eq =>
    rw [eq]
    exact .after (setEvents_frame s 0) (SameTimer.mk rfl rfl).keepsRefs (.refl _)
  | rearmed events timeout _ _ _ modified => exact .after (asked events) refs modified.effect
  | stranded _ _ eq =>
    rw [eq]
    exact .after (asked (EPOLLOUT ||| EPOLLET)) refs (.refl _)
  | closed _ _ closed => exact .after frame refs closed.effect

end LightAgent
