import LightAgent.Timer

/-!
# Epoll: the poller tables

The operations of `Epoll` on the channel of one connection. A call of `epoll_ctl`
succeeds or fails as `wire.epollCtl` says.
-/
namespace LightAgent

open Function

def Conn.setEvents (s : Conn) (events : Events) : Conn :=
  { s with http := { s.http with channel_ := { s.http.channel_ with events_ := events } } }

/-- `Channel::EqualAndUpdateLastEvents` -/
def equalAndUpdateLastEvents (s : Conn) : Bool × Conn :=
  (s.http.channel_.lastEvents_ = s.http.channel_.events_,
    { s with http := { s.http with
      channel_ := { s.http.channel_ with lastEvents_ := s.http.channel_.events_ } } })

/-- `Epoll::add_timer`. The holder locks while one of its handlers runs. -/
def add_timer (s : Conn) (timeout : Nat) : Conn :=
  match s.http.channel_.holder_ with
  | some _ => addTimer s timeout
  | none => s

/-- The call of `epoll_ctl` for the events of the channel; where it fails the channel
is dropped from the table. -/
def Conn.control (s : Conn) : Conn :=
  let fd := s.http.fd_
  if s.wire.epollCtl then
    { s with epoll := { s.epoll with
      interest := update s.epoll.interest fd (some ⟨s.http.channel_.events_, true⟩) } }
  else { s with epoll := { s.epoll with fd2chan_ := update s.epoll.fd2chan_ fd none } }

/-- `Epoll::epoll_add` -/
def epoll_add (s : Conn) (timeout : Nat) : Conn :=
  let fd := s.http.fd_
  let s := if timeout > 0 then
      let s := add_timer s timeout
      { s with epoll := { s.epoll with
        fd2http_ := update s.epoll.fd2http_ fd s.http.channel_.holder_ } }
    else s
  let s := (equalAndUpdateLastEvents s).2
  let s := { s with epoll := { s.epoll with
    fd2chan_ := update s.epoll.fd2chan_ fd (some s.http.this) } }
  s.control

/-- `Epoll::epoll_mod` -/
def epoll_mod (s : Conn) (timeout : Nat) : Conn :=
  let s := if timeout > 0 then add_timer s timeout else s
  let updated := equalAndUpdateLastEvents s
  if updated.1 then updated.2 else updated.2.control

/-- `Epoll::epoll_del` -/
def epoll_del (s : Conn) : Conn :=
  let fd := s.http.fd_
  let s := if s.wire.epollCtl then
      { s with epoll := { s.epoll with interest := update s.epoll.interest fd none } }
    else s
  { s with epoll := { s.epoll with
    fd2chan_ := update s.epoll.fd2chan_ fd none
    fd2http_ := update s.epoll.fd2http_ fd none } }

end LightAgent
