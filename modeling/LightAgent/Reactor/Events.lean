import LightAgent.Reactor.Lifecycle

/-!
# Events

A channel that is handed out waits in its loop until its handler has been called, and nothing else
happens to the connection meanwhile: no report is lost, and none is handled twice.
-/
namespace LightAgent

open Library Function

/-- The last thing that happened is a report that the channel has heard of. -/
def Awaiting (w : World) (es : List Encounter) : Prop :=
  (∃ before ready, es = before ++ [.reported ready]) ∧ (Conn.after w es).heard

/-- Behind each report that the channel hears of, its handler is called. -/
def Answered (w : World) (es : List Encounter) : Prop :=
  ∀ front ready e back, es = front ++ .reported ready :: e :: back →
    (Conn.after w front).heard → ∃ a, e = .handled a

theorem awaiting_reported {w : World} {es : List Encounter} {ready : Ready} :
    Awaiting w (es ++ [.reported ready]) ↔ (Conn.after w es).heard := by
  unfold Awaiting
  rw [Conn.after_concat]
  change _ ∧ ((Conn.after w es).reported ready).heard ↔ _
  rw [Conn.reported_heard]
  exact and_iff_right ⟨es, ready, rfl⟩

theorem Answered.concat {w : World} {es : List Encounter} {e : Encounter}
    (answered : Answered w es) (follows : Awaiting w es → ∃ a, e = .handled a) :
    Answered w (es ++ [e]) := by
  intro front ready d back split heard
  induction back using List.reverseRecOn with
  | nil =>
    have last : front ++ .reported ready :: d :: [] = (front ++ [.reported ready]) ++ [d] := by simp
    obtain ⟨rfl, same⟩ := List.append_inj' (split.trans last) rfl
    cases same
    exact follows (awaiting_reported.mpr heard)
  | append_singleton back d' _ =>
    have last : front ++ .reported ready :: d :: (back ++ [d']) =
        (front ++ .reported ready :: d :: back) ++ [d'] := by simp
    exact answered front ready d back (List.append_inj' (split.trans last) rfl).1 heard

namespace Reactor

variable {r r' : Reactor} {c : ConnId} {w : ConnId → World} {l : Label} {ℓ : LoopId}

/-- A channel that is to be handled waits until it is its turn. -/
theorem ret_kept (taken : step w r l = some r') (idle : r.subject l ≠ some c)
    (member : c ∈ (r.loops ℓ).point.ret) : c ∈ (r'.loops ℓ).point.ret := by
  -- A loop goes on to a point where the channel still waits.
  have goesOn (ℓ' : LoopId) (point : LoopPoint)
      (kept : c ∈ (r.loops ℓ').point.ret → c ∈ point.ret)
      (same : (r'.loops ℓ).point = ((r.setPoint ℓ' point).loops ℓ).point) :
      c ∈ (r'.loops ℓ).point.ret := by
    rw [same]
    by_cases here : ℓ = ℓ'
    · subst here
      rw [setPoint_point]
      exact kept member
    · rwa [setPoint_of_ne r ℓ' here]
  cases step_steps taken with
  | accept fd ℓ' nonBlocking _ _ => rwa [acceptConn_point]
  | accepted d _ => rwa [(release_loop { r with req_info := none } d ℓ).point]
  | poll ℓ' events woken point _ =>
    unfold pollEvents
    dsimp only
    by_cases here : ℓ = ℓ'
    · subst here
      rw [point] at member
      cases member
    · rw [setPoint_of_ne _ ℓ' here, (reports_loop r ℓ' events ℓ).point]
      exact member
  | handle ℓ' a d ret r₁ point called =>
    refine goesOn ℓ' (.handling ret) (fun waits => ?_)
      ((release_loop r₁ d ℓ).point.trans (call_queue called ℓ).1)
    rw [point] at waits
    refine (List.mem_cons.mp waits).resolve_left fun same => idle ?_
    simp [subject, point, LoopPoint.ret, same]
  | startFunctors ℓ' point =>
    refine goesOn ℓ' (.functors [] (r.loops ℓ').pendingFunctors_) (fun waits => ?_) ?_
    · rw [point] at waits
      cases waits
    · unfold swapFunctors setPoint
      by_cases here : ℓ = ℓ'
      · subst here
        simp
      · simp [here]
  | runFunctor ℓ' a done d rest _ point called =>
    refine goesOn ℓ' _ (fun waits => ?_) (call_queue called ℓ).1
    rw [point] at waits
    cases waits
  | endFunctors ℓ' done point =>
    refine goesOn ℓ' _ (fun waits => ?_) (releases_loop _ done ℓ).point
    rw [point] at waits
    cases waits
  | drop ℓ' a node _ _ _ => rwa [pop_point]
  | close ℓ' a node d r₁ _ _ _ called =>
    rwa [(release_loop r₁ d ℓ).point, (call_queue called ℓ).1, pop_point]
  | endExpire ℓ' now point =>
    refine goesOn ℓ' .polling (fun waits => ?_) rfl
    rw [point] at waits
    cases waits

/-- A channel that is handed out is one of a connection of that loop. -/
theorem ret_lives (sound : r.Sound) (member : c ∈ (r.loops ℓ).point.ret) : r.Lives c ℓ := by
  obtain ⟨fd, entry⟩ := (sound.ret ℓ).2 c member
  obtain ⟨cl, alive, here, _⟩ := sound.http ℓ fd c entry
  exact ⟨cl, alive, here⟩

/-- Where the channel waits for its handler, nothing happens to the connection but that. -/
theorem ret_handled {es : List Encounter} {e : Encounter} (sound : r.Sound)
    (taken : step w r l = some r') (placed : Placed (w c) c r es)
    (member : c ∈ (r.loops ℓ).point.ret) (occurs : Occurs c r l e) : ∃ a, e = .handled a := by
  have lives := ret_lives sound member
  cases occurs with
  | handled _ => exact ⟨_, rfl⟩
  | reported alive here _ =>
    -- Only a loop that polls has its connections reported.
    cases step_steps taken with
    | poll ℓ' _ _ point _ =>
      rw [Sound.lives_unique lives ⟨_, alive, here⟩, point] at member
      cases member
  | enters own =>
    have waits := List.mem_of_mem_head? own
    have first := placed.waits _ (List.mem_append_left _ waits)
    obtain ⟨⟨before, ready, split⟩, _⟩ := placed.ret ℓ member
    simp [first] at split
  | @expires ℓ' _ _ own =>
    -- The loop is at its timers, where no channel waits.
    cases step_steps taken with
    | close _ _ node d _ point found refers _ =>
      obtain rfl : d = c := by simpa [subject, found, refers] using own
      have here := sound.timers ℓ' node (List.mem_of_find?_eq_some found) d refers
      rw [Sound.lives_unique lives here, point] at member
      cases member
    | drop _ _ node _ found idle => simp [subject, found, idle] at own

/-- A channel that hears of a report is handed out with it. -/
theorem reported_ret {es : List Encounter} {ready : Ready} (sound : r.Sound)
    (taken : step w r l = some r')
    (mirrors : ∀ cl, r.conns c = some cl → Mirrors r cl (Conn.after (w c) es))
    (occurs : Occurs c r l (.reported ready)) (heard : (Conn.after (w c) es).heard) :
    ∃ ℓ, c ∈ (r'.loops ℓ).point.ret := by
  cases occurs with
  | @reported ℓ events woken cl _ alive here listed =>
    cases step_steps taken with
    | poll _ _ _ _ _ =>
      have entry := (mirrors cl alive).counterpart.heard.mp heard
      unfold Conn.heard view at entry
      dsimp only at entry
      rw [here, (sound.named c cl alive).1] at entry
      have hands : c ∈ events.filterMap fun e => (r.loops ℓ).epoll.fd2chan_ e.1 :=
        List.mem_filterMap.mpr ⟨_, listed, entry⟩
      refine ⟨ℓ, ?_⟩
      unfold pollEvents
      dsimp only
      rw [setPoint_point, if_neg fun empty => List.ne_nil_of_mem hands empty.1]
      exact hands

theorem exec_events {ls : List Label} (run : (machine w).exec new ls = some r) (c : ConnId) :
    Answered (w c) (history w c ls) ∧
      (Awaiting (w c) (history w c ls) → ∃ ℓ, c ∈ (r.loops ℓ).point.ret) := by
  induction ls using List.reverseRecOn generalizing r with
  | nil =>
    have nothing : history w c [] = [] := rfl
    rw [nothing]
    refine ⟨fun front ready e back split => ?_, ?_⟩
    · simp at split
    · rintro ⟨⟨before, ready, split⟩, _⟩
      simp at split
  | append_singleton ls l ih =>
    obtain ⟨r₁, front, taken⟩ := Machine.exec_concat run
    obtain ⟨answered, waits⟩ := ih front
    obtain ⟨_, placed⟩ := exec_lifecycle front c
    obtain ⟨unborn, mirrors⟩ := exec_mirrors front c
    obtain ⟨sound, timed, _⟩ := exec_owned front
    rw [history_concat front taken]
    rcases (placed.step sound timed taken unborn mirrors).1 with silent | ⟨e, single, _⟩
    · rw [silent, List.append_nil]
      refine ⟨answered, fun awaiting => ?_⟩
      obtain ⟨ℓ, member⟩ := waits awaiting
      refine ⟨ℓ, ret_kept taken (fun own => ?_) member⟩
      obtain ⟨e, single, _⟩ := own_follows sound timed taken placed mirrors own
      cases silent.symm.trans single
    · have occurs : Occurs c r₁ l e := encounters_occurs (single ▸ List.mem_cons_self)
      rw [single]
      refine ⟨answered.concat fun awaiting => ?_, ?_⟩
      · obtain ⟨ℓ, member⟩ := waits awaiting
        exact ret_handled sound taken placed member occurs
      · rintro ⟨⟨before, ready, split⟩, heard⟩
        obtain ⟨rfl, same⟩ := List.append_inj' split rfl
        cases same
        exact reported_ret sound taken mirrors occurs
          (awaiting_reported.mp ⟨⟨_, ready, rfl⟩, heard⟩)

/-- A handler is called for one report. -/
theorem handled_once {es front back : List Encounter} {w : World} {ready : Ready} {a : Arrival}
    (life : Lifecycle w es) (split : es = front ++ .reported ready :: .handled a :: back)
    (b : Arrival) (later : List Encounter) : back ≠ .handled b :: later := by
  rintro rfl
  have again : es = (front ++ [.reported ready, .handled a]) ++ .handled b :: later := by
    rw [split]
    simp
  obtain ⟨⟨before, ready', behind⟩, _⟩ := life.follows again
  -- What stands before the second call is the first one, and no report.
  have last := congrArg List.getLast? behind
  simp at last

/-- In every run each report that the channel of a connection hears of is handled once, and before
anything else happens to the connection: what comes behind the report is the call of the handler;
as long as nothing has come the channel waits for it in the loop of the connection, and when that
loop is back at its poll it has come. -/
theorem reports_handled {ls : List Label} (run : (machine w).exec new ls = some r) (c : ConnId)
    (front back : List Encounter) (ready : Ready)
    (split : history w c ls = front ++ .reported ready :: back)
    (heard : (Conn.after (w c) front).heard) :
    ((∃ a later, back = .handled a :: later ∧ ∀ b rest, later ≠ .handled b :: rest) ∨
        (back = [] ∧ ∃ cl, r.conns c = some cl ∧ c ∈ (r.loops cl.http.loop_).point.ret)) ∧
      ∀ cl, r.conns c = some cl → (r.loops cl.http.loop_).point = .polling →
        ∃ a later, back = .handled a :: later := by
  obtain ⟨answered, waits⟩ := exec_events run c
  obtain ⟨life, _⟩ := exec_lifecycle run c
  obtain ⟨sound, _⟩ := exec_owned run
  cases back with
  | nil =>
    rw [split] at waits
    obtain ⟨ℓ, member⟩ := waits (awaiting_reported.mpr heard)
    obtain ⟨cl, alive, rfl⟩ := ret_lives sound member
    refine ⟨.inr ⟨rfl, cl, alive, member⟩, fun dl alive' polls => ?_⟩
    -- A loop that polls has handled what it was told.
    cases alive.symm.trans alive'
    rw [polls] at member
    cases member
  | cons e later =>
    obtain ⟨a, rfl⟩ := answered front ready e later split heard
    exact ⟨.inl ⟨a, later, rfl, handled_once life split⟩, fun _ _ _ => ⟨a, later, rfl⟩⟩

/-- The run up to the report: the channel waits. -/
theorem reports_handled_crowded : ∃ r,
    (machine fun _ => World.bare).exec new (crowded.take 15) = some r ∧
      history (fun _ => World.bare) 1 (crowded.take 15) =
        [.enters (quietAt 0), .reported ⟨true, false, false, false⟩] ∧
      ∃ cl, r.conns 1 = some cl ∧ 1 ∈ (r.loops cl.http.loop_).point.ret := by
  obtain ⟨r, run, _⟩ := Machine.exec_any (M := machine fun _ => World.bare)
    (fun _ => True) new (crowded.take 15) (by decide +kernel)
  have split : history (fun _ => World.bare) 1 (crowded.take 15) =
      [.enters (quietAt 0), .reported ⟨true, false, false, false⟩] := by
    decide +kernel
  have heard : (Conn.after .bare [.enters (quietAt 0)]).heard := by decide +kernel
  rcases (reports_handled run 1 [.enters (quietAt 0)] [] _ split heard).1 with
    ⟨a, later, handled, _⟩ | ⟨_, waits⟩
  · cases handled
  · exact ⟨r, run, split, waits⟩

end Reactor
end LightAgent
