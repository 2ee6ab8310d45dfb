import LightAgent.HttpData.Effects

/-!
# What the kernel is told of a connection

The first registration is good for one event, all later ones stay enabled. Where
`handleConn` keeps a connection it is left armed, unless the branch for a gone peer does
not tell the poller.
-/
namespace LightAgent

open Library Function

/-- The masks `handleConn` asks for. -/
def Rearmed (mask : Events) : Prop := mask = EPOLLIN ||| EPOLLET ∨ mask = EPOLLOUT ||| EPOLLET

instance (mask : Events) : Decidable (Rearmed mask) := inferInstanceAs (Decidable (_ ∨ _))

/-- The registration is enabled, as the channel has it, and asks for what is pending. -/
structure HttpData.Armed (h : HttpData) (reg : Option Registration) : Prop where
  enabled : reg = some ⟨h.channel_.lastEvents_, true⟩
  mask : Rearmed h.channel_.lastEvents_
  output : h.outBuffer_ ≠ [] → h.channel_.lastEvents_.has EPOLLOUT

/-- The kernel has what the channel has. Only a first registration may be disabled. -/
def Channel.Known (channel_ : Channel) (reg : Option Registration) : Prop :=
  ∃ enabled, reg = some ⟨channel_.lastEvents_, enabled⟩ ∧
    (channel_.lastEvents_ = DEFAULT_EVENT ∨ (enabled = true ∧ Rearmed channel_.lastEvents_))

/-- What holds of a connection in the tables between its events. -/
structure HttpData.Registered (h : HttpData) (reg : Option Registration) : Prop where
  here : h.connectionState_ ≠ .disconnected
  known : h.channel_.Known reg
  output : h.outBuffer_ ≠ [] → h.channel_.lastEvents_ = EPOLLOUT ||| EPOLLET

theorem rearmed_default : ¬Rearmed DEFAULT_EVENT := by decide

theorem Rearmed.has_out {mask : Events} (rearmed : Rearmed mask) :
    mask.has EPOLLOUT ↔ mask = EPOLLOUT ||| EPOLLET := by
  rcases rearmed with rfl | rfl <;> decide

theorem HttpData.Armed.registered {h : HttpData} {reg : Option Registration} (armed : h.Armed reg)
    (here : h.connectionState_ ≠ .disconnected) : h.Registered reg :=
  ⟨here, ⟨true, armed.enabled, .inr ⟨rfl, armed.mask⟩⟩,
    fun pending => armed.mask.has_out.mp (armed.output pending)⟩

/-- Output goes before input, and where nothing was asked for it is input. -/
theorem Wanted.rearmed {asked : Events} (wanted : Wanted asked) :
    (asked = 0 → Rearmed (asked ||| (EPOLLIN ||| EPOLLET))) ∧
    (asked ≠ 0 → Rearmed ((if asked.has EPOLLIN ∧ asked.has EPOLLOUT then 0 ||| EPOLLOUT
      else asked) ||| EPOLLET)) ∧
    (asked.has EPOLLOUT → asked ≠ 0 ∧ ((if asked.has EPOLLIN ∧ asked.has EPOLLOUT then
      0 ||| EPOLLOUT else asked) ||| EPOLLET).has EPOLLOUT) := by
  rcases wanted with rfl | rfl | rfl | rfl <;> decide

/-- `handleConn` keeps what works, and asks for what the handlers asked for. -/
theorem connExit_rearms {h : HttpData} {events : Events} {timeout : Nat}
    (wanted : Wanted h.channel_.events_) (exit : h.connExit = .rearms events timeout) :
    (h.error_ = false ∧ h.connectionState_ = .connected) ∧ Rearmed events ∧
      (h.channel_.events_.has EPOLLOUT → events.has EPOLLOUT) := by
  obtain ⟨idle, busy, output⟩ := wanted.rearmed
  unfold HttpData.connExit at exit
  dsimp only at exit
  split at exit
  next works =>
    refine ⟨⟨by simpa using works.1, works.2⟩, ?_⟩
    split at exit
    -- A connection that asked for events keeps its EPOLLOUT.
    next asks =>
      cases exit
      exact ⟨busy asks, fun out => (output out).2⟩
    next asks =>
      have nothing : h.channel_.events_ = 0 := not_not.mp asks
      split at exit
      all_goals
        cases exit
        exact ⟨idle nothing, fun out => absurd nothing (output out).1⟩
  next => split at exit <;> cases exit

/-- The channel of an event that is not ignored has something to read or to write. -/
def Heard (revents_ : Events) : Prop :=
  returnsEarly revents_ = true ∨ revents_.has (EPOLLIN ||| EPOLLPRI ||| EPOLLRDHUP) ∨
    revents_.has EPOLLOUT

/-! ### The handlers -/

/-- The registrations of other descriptors stay as they are. -/
theorem Closed.others {s s' : Conn} (closed : Closed s s') {fd : Fd} (other : fd ≠ s.http.fd_) :
    s'.epoll.interest fd = s.epoll.interest fd := by
  rcases closed.interest with kept | gone
  · rw [kept]
  · rw [gone, update_of_ne other]

theorem newEvent_others (s : Conn) {fd : Fd} (other : fd ≠ s.http.fd_) :
    (newEvent s).epoll.interest fd = s.epoll.interest fd := by
  rcases (newEvent_entered s).poller with ⟨_, _, told⟩ | ⟨_, _, kept⟩
  · rw [told, update_of_ne other]
  · rw [kept]

theorem handleEvents_others (w : World) (s : Conn) {fd : Fd} (other : fd ≠ s.http.fd_) :
    (handleEvents w s).epoll.interest fd = s.epoll.interest fd := by
  have frame := decided_frame w s
  have other : fd ≠ (decided w s).http.fd_ := frame.fd_ ▸ other
  cases handleEvents_handled w s with
  | ignored _ eq => rw [eq]; rfl
  | rearmed events timeout _ _ _ modified =>
    rw [← frame.interest]
    -- `epoll_ctl` is only called for the own descriptor.
    cases modified.poller with
    | before _ _ kept => rw [kept]; rfl
    | registered _ _ told => rw [told]; exact update_of_ne other _ _
    | dropped _ _ kept => rw [kept]; rfl
  | stranded _ _ eq => rw [eq, ← frame.interest]; rfl
  | closed _ _ closed => rw [closed.others other, frame.interest]

/-- `newEvent` registers for one event. -/
theorem newEvent_registered {s : Conn} (succeeds : s.wire.epollCtl = true)
    (here : s.http.connectionState_ ≠ .disconnected) (empty : s.http.outBuffer_ = []) :
    (newEvent s).http.Registered ((newEvent s).epoll.interest s.http.fd_) := by
  have entered := newEvent_entered s
  obtain ⟨timer, http⟩ := entered.http
  rcases entered.poller with ⟨_, _, interest⟩ | ⟨fails, _, _⟩
  · rw [interest, http, update_self]
    exact ⟨here, ⟨true, rfl, .inl rfl⟩, fun pending => absurd empty pending⟩
  · cases succeeds.symm.trans fails

/-- `handleConn` is entered with what the handlers of the event have asked for. -/
theorem decided_asks {w : World} {s : Conn} (heard : Heard s.http.channel_.revents_)
    (taken : returnsEarly s.http.channel_.revents_ = false)
    (here : s.http.connectionState_ ≠ .disconnected) : AsksFor (decided w s) := by
  obtain ⟨timer, http⟩ := seperateTimer_http (dispatch w (s.setEvents 0))
  have asks : AsksFor (dispatch w (s.setEvents 0)) := by
    refine dispatch_asks rfl here ?_
    -- The event is one that a handler is called for.
    rcases heard with early | readable | writable
    · cases taken.symm.trans early
    · exact .inl readable
    · exact .inr (.inl writable)
  unfold decided
  constructor
  · rw [http]; exact asks.wanted
  · rw [http]; exact asks.output

/-- The branch for a gone peer leaves the registration as it is: in order where it is not
the first one any more and asks for output if there is some. -/
def HttpData.StaysArmed (h : HttpData) : Prop :=
  h.OutputLeft → h.channel_.lastEvents_ ≠ DEFAULT_EVENT ∧
    (h.outBuffer_ = [] ∨ h.channel_.lastEvents_.has EPOLLOUT)

instance (h : HttpData) : Decidable h.StaysArmed := inferInstanceAs (Decidable (_ → _))

/-- Where `handleConn` tells the poller the connection is armed. -/
theorem Modified.armed {d s' : Conn} {events : Events} {timeout : Nat}
    (modified : Modified (d.setEvents events) timeout s') (succeeds : d.wire.epollCtl = true)
    (known : d.http.channel_.Known (d.epoll.interest d.http.fd_)) (asks : AsksFor d)
    (exit : d.http.connExit = .rearms events timeout) :
    s'.http.connectionState_ ≠ .disconnected ∧ s'.http.Armed (s'.epoll.interest d.http.fd_) := by
  obtain ⟨⟨alive, connected⟩, mask, output⟩ := connExit_rearms asks.wanted exit
  obtain ⟨timer, http⟩ := modified.http
  have interest : s'.epoll.interest d.http.fd_ = some ⟨events, true⟩ := by
    cases modified.poller with
    -- Without a call of `epoll_ctl` the mask is the one that is registered already.
    | before same _ kept =>
      have same : d.http.channel_.lastEvents_ = events := same
      obtain ⟨enabled, reg, first | ⟨rfl, _⟩⟩ := known
      · rw [← same, first] at mask
        exact absurd mask rearmed_default
      · rw [kept, ← same]
        exact reg
    | registered _ _ told =>
      rw [told]
      exact update_self _ _ _
    | dropped fails _ _ => cases succeeds.symm.trans fails
  rw [interest, http]
  refine ⟨fun gone => ?_, rfl, mask, fun pending => output (asks.output alive pending)⟩
  cases connected.symm.trans gone

/-- An event that reaches `handleConn` ends in `handleClose`, or leaves the connection armed
exactly when the branch for a gone peer is not taken or harmless. -/
theorem handleEvents_armed {w : World} {s : Conn} (succeeds : s.wire.epollCtl = true)
    (registered : s.http.Registered (s.epoll.interest s.http.fd_))
    (heard : Heard s.http.channel_.revents_)
    (taken : returnsEarly s.http.channel_.revents_ = false) :
    ((handleEvents w s).epoll.fd2http_ s.http.fd_ = none ∧
        (dispatch w (s.setEvents 0)).http.StaysArmed) ∨
      ((handleEvents w s).epoll.fd2http_ = s.epoll.fd2http_ ∧
        (handleEvents w s).http.connectionState_ ≠ .disconnected ∧
        ((handleEvents w s).http.Armed ((handleEvents w s).epoll.interest s.http.fd_) ↔
          (dispatch w (s.setEvents 0)).http.StaysArmed)) := by
  have frame := decided_frame w s
  obtain ⟨_, channel⟩ := frame.channel_
  have last : (decided w s).http.channel_.lastEvents_ = s.http.channel_.lastEvents_ := by
    rw [channel]
  -- Up to the decision of `handleConn` the registration is the one there was.
  have known : (decided w s).http.channel_.Known
      ((decided w s).epoll.interest (decided w s).http.fd_) := by
    unfold Channel.Known
    rw [last, frame.interest, frame.fd_]
    exact registered.known
  have same : (dispatch w (s.setEvents 0)).http.StaysArmed ↔ (decided w s).http.StaysArmed := by
    obtain ⟨_, http⟩ := seperateTimer_http (dispatch w (s.setEvents 0))
    rw [decided, http]
    rfl
  rw [same]
  have asks := decided_asks (w := w) heard taken registered.here
  cases handleEvents_handled w s with
  | ignored early _ => cases taken.symm.trans early
  | closed _ exit closed =>
    refine .inl ⟨?_, fun left_ => ?_⟩
    · rw [closed.fd2http_, frame.fd_, update_self]
    · cases exit.symm.trans (connExit_strands.mpr left_)
  | rearmed events timeout _ exit _ modified =>
    obtain ⟨here, armed⟩ := modified.armed (frame.epollCtl.trans succeeds) known asks exit
    rw [frame.fd_] at armed
    refine .inr ⟨modified.fd2http_.trans frame.fd2http_, here, iff_of_true armed fun left_ => ?_⟩
    cases exit.symm.trans (connExit_strands.mpr left_)
  | stranded _ exit eq =>
    have left_ := connExit_strands.mp exit
    rw [eq]
    refine .inr ⟨frame.fd2http_, ?_, ?_⟩
    · change (decided w s).http.connectionState_ ≠ _
      rw [left_.2.1]
      decide
    · rw [frame.fd_] at known
      -- The branch that strands leaves the registration as it is: the first one, which has fired,
      -- or a later one that stays enabled.
      obtain ⟨enabled, reg, first | ⟨rfl, mask⟩⟩ := known
      · refine iff_of_false (fun armed => ?_) fun stays => (stays left_).1 first
        have mask : Rearmed (decided w s).http.channel_.lastEvents_ := armed.mask
        rw [first] at mask
        exact rearmed_default mask
      · constructor
        · intro armed _
          refine ⟨fun first => rearmed_default (first ▸ mask), ?_⟩
          exact or_iff_not_imp_left.mpr armed.output
        · exact fun stays => ⟨reg, mask, fun pending => (stays left_).2.resolve_left pending⟩

/-- What `handleEvents` leaves in the table it leaves registered. -/
theorem handleEvents_registered {w : World} {s : Conn} (succeeds : s.wire.epollCtl = true)
    (registered : s.http.Registered (s.epoll.interest s.http.fd_))
    (heard : Heard s.http.channel_.revents_)
    (kept : returnsEarly s.http.channel_.revents_ = false →
      (dispatch w (s.setEvents 0)).http.StaysArmed)
    {c : ConnId} (listed : (handleEvents w s).epoll.fd2http_ s.http.fd_ = some c) :
    (handleEvents w s).http.Registered ((handleEvents w s).epoll.interest s.http.fd_) := by
  cases early : returnsEarly s.http.channel_.revents_ with
  | true =>
    have eq : handleEvents w s = s.setEvents 0 := if_pos early
    rw [eq]
    exact ⟨registered.here, registered.known, registered.output⟩
  | false =>
    -- A connection that was closed is not listed any more.
    rcases handleEvents_armed succeeds registered heard early with ⟨gone, _⟩ | ⟨_, here, armed⟩
    · cases gone.symm.trans listed
    · exact (armed.mpr (kept early)).registered here

end LightAgent
