import LightAgent.Library.HttpMessage
import LightAgent.Library.Runs
import LightAgent.LightAgentGateway
import Mathlib.Data.Finset.Card
import Std.Data.String.ToNat

/-!
# The two counters of the gateway

Worker threads that call `handle` at the same time share `gApiRequests` and `gChatRequests`, and
nothing else. A step is one access to one of the two, an increment or a load, with what the thread
does behind it up to its next one. `metrics` loads the two one after the other, so what it
reports are the counters of two moments.
-/
namespace LightAgent.LightAgentGateway

open Library Function

/-! ### Which routes come to the counters -/

/-- `handle` comes to `metrics` for it. -/
def AsksMetrics (request : Request) : Prop :=
  request.path = bytes "/api/metrics" ∧ (request.method = .get ∨ request.method = .head)

/-- `handle` comes to `chat` for it. -/
def AsksChat (request : Request) : Prop :=
  request.path = bytes "/api/chat" ∧ request.method = .post

instance (request : Request) : Decidable (AsksMetrics request) :=
  inferInstanceAs (Decidable (_ ∧ _))

instance (request : Request) : Decidable (AsksChat request) :=
  inferInstanceAs (Decidable (_ ∧ _))

theorem handle_of_asksMetrics (view : View) {request : Request} (asks : AsksMetrics request) :
    handle view request = some (metrics view) := by
  obtain ⟨path, method⟩ := asks
  -- The two tests of the method in `handle` are passed together.
  have allowed : ¬(request.method ≠ .get ∧ request.method ≠ .head) := by tauto
  simp [handle, path, allowed, show startsWith (bytes "/api/metrics") (bytes "/api/") = true by decide,
    show bytes "/api/metrics" ≠ bytes "/api/health" by decide]

/-! ### Bodies of `metrics` -/

/-- The members of a `metrics` body, its numerals between commas. -/
theorem metrics_body (view : View) : (metrics view).body =
    bytes "\x7b\"service\":\"LightAgent Gateway\",\"uptime_seconds\":" ++
      (decimal view.uptime ++ 44 :: (bytes "\"api_requests_total\":" ++
        (decimal view.apiRequests ++ 44 :: (bytes "\"chat_requests_total\":" ++
          (decimal view.chatRequests ++ bytes "\x7d"))))) := by
  have front (t : Bytes) : bytes "\x7b" ++ (bytes "\"service\":\"LightAgent Gateway\"," ++
      (bytes "\"uptime_seconds\":" ++ t)) =
        bytes "\x7b\"service\":\"LightAgent Gateway\",\"uptime_seconds\":" ++ t := by
    rw [← List.append_assoc, ← List.append_assoc]
    exact congrArg (· ++ t) (by decide)
  have api (t : Bytes) : bytes ",\"" ++ (bytes "api_requests_total" ++ (bytes "\":" ++ t)) =
      44 :: (bytes "\"api_requests_total\":" ++ t) := by
    rw [← List.append_assoc, ← List.append_assoc, ← List.cons_append]
    exact congrArg (· ++ t) (by decide)
  have chat (t : Bytes) : bytes ",\"" ++ (bytes "chat_requests_total" ++ (bytes "\":" ++ t)) =
      44 :: (bytes "\"chat_requests_total\":" ++ t) := by
    rw [← List.append_assoc, ← List.append_assoc, ← List.cons_append]
    exact congrArg (· ++ t) (by decide)
  simp only [metrics, jsonResponse, List.flatMap_cons, List.flatMap_nil, List.append_assoc,
    List.nil_append, List.cons_append, front, api, chat]

/-- A body tells both counters. -/
theorem metrics_injective {view view' : View} (same : metrics view = metrics view') :
    view.apiRequests = view'.apiRequests ∧ view.chatRequests = view'.chatRequests := by
  -- A numeral holds no comma, so each comma of the body ends the one before it.
  have plain (n : Nat) : (44 : UInt8) ∉ decimal n := fun member =>
    absurd (decimal_digits member).1 (by decide)
  have body := congrArg Response.body same
  rw [metrics_body, metrics_body] at body
  obtain ⟨_, body⟩ := unique_cut (plain _) (plain _) (List.append_cancel_left body)
  obtain ⟨apiRequests, body⟩ := unique_cut (plain _) (plain _) (List.append_cancel_left body)
  have chatRequests := List.append_cancel_right (List.append_cancel_left body)
  exact ⟨decimal_injective apiRequests, decimal_injective chatRequests⟩

/-- No other answer has a body that begins as that of `metrics` does. -/
theorem asksMetrics_of_handle {view view' : View} {request : Request}
    (answers : handle view request = some (metrics view')) : AsksMetrics request := by
  have begins : (metrics view').body.take 4 = bytes "\x7b\"se" := by
    rw [metrics_body]
    rfl
  have other {response : Response} (head : response.body.take 4 ≠ bytes "\x7b\"se") :
      some response ≠ some (metrics view') := by
    intro same
    rw [Option.some.inj same] at head
    exact head begins
  -- One case a way through `handle`, in its order.
  unfold handle at answers
  repeat' split at answers
  · cases answers
  · exact absurd answers (other (by decide))
  · have head : (health view).body.take 4 = bytes "\x7b\"st" := by
      simp only [health, jsonResponse, List.append_assoc]
      rfl
    exact absurd answers (other (by rw [head]; decide))
  · exact absurd answers (other (by decide))
  next path method => exact ⟨path, by tauto⟩
  · exact absurd answers (other (by decide))
  · have head : (chat request).body.take 4 = bytes "\x7b\"id" := by
      simp only [chat, jsonResponse, List.append_assoc]
      rfl
    exact absurd answers (other (by rw [head]; decide))
  · exact absurd answers (other (by decide))

/-! ### The threads -/

/-- Where a thread stands in `handle`. -/
inductive Point where
  | idle
  /-- before `++gApiRequests` -/
  | entered (request : Request)
  /-- behind it; what comes next is up to the route -/
  | counted (request : Request)
  /-- in `metrics`, between the two loads, with the value of the first -/
  | apiLoaded (request : Request) (apiRequests : Nat)
  deriving DecidableEq, Repr

/-- The request of the call is counted in `gApiRequests`. -/
def Point.behindCount : Point → Bool
  | .idle => false
  | .entered _ => false
  | .counted _ => true
  | .apiLoaded _ _ => true

/-- The counters of the process and the threads in it. -/
structure Workers (T : Type*) where
  gApiRequests : Nat
  gChatRequests : Nat
  point : T → Point

/-- `++` of an `unsigned long long` -/
def increment (counter : Nat) : Nat := (counter + 1) % 2 ^ 64

namespace Workers

/-- What happens next: a thread calls `handle`, or it goes on in its call, where `view` is what
it sees of the process beside the counters. -/
inductive Label (T : Type*) where
  | call (t : T) (request : Request)
  | go (t : T) (view : View)

variable {T : Type*}

def Label.thread : Label T → T
  | .call t _ => t
  | .go t _ => t

def new : Workers T := ⟨0, 0, fun _ => .idle⟩

section

variable [DecidableEq T]

def goto (s : Workers T) (t : T) (here : Point) : Workers T :=
  { s with point := update s.point t here }

def step (s : Workers T) : Label T → Option (Workers T)
  | .call t request =>
    if s.point t = .idle then
      -- a path outside `/api/` comes to neither counter
      some (if startsWith request.path (bytes "/api/") then s.goto t (.entered request) else s)
    else none
  | .go t _ =>
    match s.point t with
    | .idle => none
    | .entered request =>
      some { s.goto t (.counted request) with gApiRequests := increment s.gApiRequests }
    | .counted request =>
      if AsksMetrics request then some (s.goto t (.apiLoaded request s.gApiRequests))
      else if AsksChat request then
        some { s.goto t .idle with gChatRequests := increment s.gChatRequests }
      else some (s.goto t .idle)
    | .apiLoaded _ _ => some (s.goto t .idle)

def machine (T : Type*) [DecidableEq T] : Machine (Workers T) (Label T) := ⟨(· = new), step⟩

end

/-- What a step answers its caller with; the second load is in it where it is of `metrics`. -/
def answer (s : Workers T) : Label T → Option Response
  | .call _ _ => none
  | .go t view =>
    match s.point t with
    | .idle => none
    | .entered _ => none
    | .counted request => if AsksMetrics request then none else handle view request
    | .apiLoaded request apiRequests =>
      handle { view with apiRequests, chatRequests := s.gChatRequests } request

/-- The request that a step counts in `gApiRequests`. -/
def apiCounted (s : Workers T) : Label T → List Request
  | .call _ _ => []
  | .go t _ =>
    match s.point t with
    | .entered request => [request]
    | _ => []

/-- The request that a step counts in `gChatRequests`. -/
def chatCounted (s : Workers T) : Label T → List Request
  | .call _ _ => []
  | .go t _ =>
    match s.point t with
    | .counted request => if AsksChat request then [request] else []
    | _ => []

/-! ### What a step does -/

theorem asks_one {request : Request} (chat : AsksChat request) : ¬AsksMetrics request := by
  rintro ⟨path, _⟩
  rw [chat.1] at path
  exact absurd path (by decide)

section

variable [DecidableEq T] {s s' : Workers T} {l : Label T}

/-- What a step does, with what it finds and the requests that it counts. -/
inductive Steps (s : Workers T) : Label T → Workers T → List Request → List Request → Prop
  | refuse {t : T} {request : Request} : s.point t = .idle → Steps s (.call t request) s [] []
  | enter {t : T} {request : Request} : s.point t = .idle →
      Steps s (.call t request) (s.goto t (.entered request)) [] []
  | count {t : T} {view : View} {request : Request} : s.point t = .entered request →
      Steps s (.go t view)
        { s.goto t (.counted request) with gApiRequests := increment s.gApiRequests } [request] []
  | load {t : T} {view : View} {request : Request} : s.point t = .counted request →
      Steps s (.go t view) (s.goto t (.apiLoaded request s.gApiRequests)) [] []
  | chat {t : T} {view : View} {request : Request} : s.point t = .counted request →
      Steps s (.go t view)
        { s.goto t .idle with gChatRequests := increment s.gChatRequests } [] [request]
  | leave {t : T} {view : View} {request : Request} : s.point t = .counted request →
      Steps s (.go t view) (s.goto t .idle) [] []
  | answer {t : T} {view : View} {request : Request} {api : Nat} :
      s.point t = .apiLoaded request api → Steps s (.go t view) (s.goto t .idle) [] []

theorem step_steps (taken : s.step l = some s') : ∃ api chat,
    s.apiCounted l = api ∧ s.chatCounted l = chat ∧ s.Steps l s' api chat := by
  refine ⟨_, _, rfl, rfl, ?_⟩
  cases l with
  | call t request =>
    simp only [step] at taken
    split at taken
    next idle =>
      simp only [apiCounted, chatCounted]
      split at taken
      all_goals cases taken
      · exact .enter idle
      · exact .refuse idle
    next => cases taken
  | go t view =>
    -- What the thread does next is told by where it stands, and by the route once it has counted.
    cases here : s.point t with
    | idle => simp [step, here] at taken
    | entered request =>
      simp only [step, here] at taken
      simp only [apiCounted, chatCounted, here]
      cases taken
      exact .count here
    | counted request =>
      simp only [step, here] at taken
      simp only [apiCounted, chatCounted, here]
      split at taken
      next metrics =>
        cases taken
        rw [if_neg fun chat => asks_one chat metrics]
        exact .load here
      next =>
        split at taken
        next chat => cases taken; rw [if_pos chat]; exact .chat here
        next other => cases taken; rw [if_neg other]; exact .leave here
    | apiLoaded request api =>
      simp only [step, here] at taken
      simp only [apiCounted, chatCounted, here]
      cases taken
      exact .answer here

omit [DecidableEq T] in
/-! ### What the counters count -/

/-- Of the threads at most `n` have counted their request and are still in their call. -/
def Pending (s : Workers T) (n : Nat) : Prop :=
  ∃ threads : Finset T, threads.card ≤ n ∧ ∀ t, (s.point t).behindCount = true → t ∈ threads

/-- The counters tell, modulo their width, how many requests have been counted; each thread that
has counted a request and is still in its call is behind in the second counter. -/
structure Balanced (s : Workers T) (api chat : Nat) : Prop where
  gApiRequests : s.gApiRequests = api % 2 ^ 64
  gChatRequests : s.gChatRequests = chat % 2 ^ 64
  pending : ∃ n, s.Pending n ∧ chat + n ≤ api

theorem Pending.keeps {n : Nat} (pending : s.Pending n) {t : T} {here : Point}
    (before : here.behindCount = true → (s.point t).behindCount = true) :
    (s.goto t here).Pending n := by
  obtain ⟨threads, few, all⟩ := pending
  refine ⟨threads, few, fun t' behind => ?_⟩
  by_cases same : t' = t
  · subst same
    exact all t' (before (by simpa [goto] using behind))
  · exact all t' (by simpa [goto, same] using behind)

theorem Pending.grows {n : Nat} (pending : s.Pending n) (t : T) (here : Point) :
    (s.goto t here).Pending (n + 1) := by
  obtain ⟨threads, few, all⟩ := pending
  refine ⟨insert t threads, ?_, fun t' behind => ?_⟩
  · have := Finset.card_insert_le t threads
    omega
  · by_cases same : t' = t
    · subst same
      exact Finset.mem_insert_self t' threads
    · exact Finset.mem_insert_of_mem (all t' (by simpa [goto, same] using behind))

theorem Pending.shrinks {n : Nat} (pending : s.Pending n) {t : T}
    (behind : (s.point t).behindCount = true) :
    ∃ m, n = m + 1 ∧ (s.goto t .idle).Pending m := by
  obtain ⟨threads, few, all⟩ := pending
  -- The thread is one of them, so there is one to take out.
  have here := all t behind
  have some := Finset.card_pos.mpr ⟨t, here⟩
  refine ⟨n - 1, by omega, threads.erase t, ?_, fun t' behind' => ?_⟩
  · rw [Finset.card_erase_of_mem here]
    omega
  · by_cases same : t' = t
    · subst same
      simp [goto, Point.behindCount] at behind'
    · exact Finset.mem_erase.mpr ⟨same, all t' (by simpa [goto, same] using behind')⟩

omit [DecidableEq T] in
theorem balanced_new : (new : Workers T).Balanced 0 0 := by
  refine ⟨rfl, rfl, 0, ⟨∅, Nat.le_refl _, fun t behind => ?_⟩, Nat.le_refl _⟩
  simp [new, Point.behindCount] at behind

theorem Balanced.step {api chat : Nat} (balanced : s.Balanced api chat)
    (taken : s.step l = some s') :
    s'.Balanced (api + (s.apiCounted l).length) (chat + (s.chatCounted l).length) := by
  obtain ⟨apiRequests, chatRequests, n, pending, most⟩ := balanced
  obtain ⟨_, _, apis, chats, steps⟩ := step_steps taken
  rw [apis, chats]
  -- A thread becomes pending where it counts its request, and stops to be where it leaves.
  cases steps with
  | refuse => exact ⟨apiRequests, chatRequests, n, pending, most⟩
  | enter idle => exact ⟨apiRequests, chatRequests, n, pending.keeps (by simp [Point.behindCount]), most⟩
  | count here =>
    refine ⟨?_, chatRequests, n + 1, pending.grows _ _, by simp; omega⟩
    simp only [increment, apiRequests, List.length_singleton]
    omega
  | load here => exact ⟨apiRequests, chatRequests, n, pending.keeps (by simp [here, Point.behindCount]), most⟩
  | chat here =>
    obtain ⟨m, rfl, fewer⟩ := pending.shrinks (by rw [here]; rfl)
    refine ⟨apiRequests, ?_, m, fewer, by simp; omega⟩
    simp only [increment, chatRequests, List.length_singleton]
    omega
  | leave here =>
    obtain ⟨m, rfl, fewer⟩ := pending.shrinks (by rw [here]; rfl)
    exact ⟨apiRequests, chatRequests, m, fewer, by simp; omega⟩
  | answer here =>
    obtain ⟨m, rfl, fewer⟩ := pending.shrinks (by rw [here]; rfl)
    exact ⟨apiRequests, chatRequests, m, fewer, by simp; omega⟩

theorem Balanced.exec {api chat : Nat} {ls : List (Label T)} (balanced : s.Balanced api chat)
    (run : (machine T).exec s ls = some s') :
    s'.Balanced (api + ((machine T).output apiCounted s ls).length)
      (chat + ((machine T).output chatCounted s ls).length) := by
  induction ls generalizing s api chat with
  | nil => cases run; exact balanced
  | cons l ls ih =>
    obtain ⟨next, taken, rest⟩ := Machine.exec_step run
    have read := ih (balanced.step taken) rest
    rw [Machine.output_cons _ taken, Machine.output_cons _ taken]
    simpa only [List.length_append, Nat.add_assoc] using read

/-! ### Between the two loads -/

theorem goto_same (t : T) (here : Point) : (s.goto t here).point t = here := by
  simp [goto]

theorem goto_other {t t' : T} (other : t ≠ t') (here : Point) :
    (s.goto t here).point t' = s.point t' := by
  simp [goto, other.symm]

/-- A thread comes between its loads by the first one, and leaves by any step of its own. -/
theorem step_loaded {t : T} {request : Request} {api : Nat} (taken : s.step l = some s')
    (here : s'.point t = .apiLoaded request api) :
    (l.thread ≠ t ∧ s.point t = .apiLoaded request api) ∨
      (l.thread = t ∧ s.point t = .counted request ∧ s.gApiRequests = api ∧
        s.chatCounted l = []) := by
  -- A step moves its own thread only.
  by_cases own : l.thread = t
  · right
    refine ⟨own, ?_⟩
    obtain ⟨_, _, _, chats, steps⟩ := step_steps taken
    rw [chats]
    cases steps
    all_goals
      subst own
      simp_all [Label.thread, goto_same]
  · left
    refine ⟨own, ?_⟩
    obtain ⟨_, _, _, _, steps⟩ := step_steps taken
    cases steps
    case refuse => exact here
    all_goals
      simp only [Label.thread] at own
      simpa only [goto_other own] using here

/-- A thread is between its loads since its last step, which was the first of them. -/
theorem exec_loaded {ls : List (Label T)} {t : T} {request : Request} {api : Nat}
    (run : (machine T).exec new ls = some s) (here : s.point t = .apiLoaded request api) :
    ∃ before load between m loaded, ls = before ++ load :: between ∧
      (machine T).exec new before = some m ∧ m.step load = some loaded ∧
      (machine T).exec loaded between = some s ∧ load.thread = t ∧
      (∀ l ∈ between, l.thread ≠ t) ∧ loaded.point t = .apiLoaded request api ∧
      m.point t = .counted request ∧ m.gApiRequests = api ∧ m.chatCounted load = [] := by
  have within (m : Workers T) (l : Label T) (m' : Workers T)
      (before : m.point t = .apiLoaded request api) (taken : (machine T).step m l = some m')
      (after : m'.point t = .apiLoaded request api) : l.thread ≠ t := by
    rcases step_loaded taken after with ⟨other, _⟩ | ⟨_, counted, _⟩
    · exact other
    · cases before.symm.trans counted
  have out : (new : Workers T).point t ≠ .apiLoaded request api := by simp [new]
  -- At the beginning the thread was idle, so it came between its loads at some step.
  obtain ⟨before, load, between, m, loaded, split, first, outside, taken, inside, rest, others⟩ :=
    Machine.exec_entered within run out here
  rcases step_loaded taken inside with ⟨_, already⟩ | ⟨own, loads⟩
  · exact absurd already outside
  · exact ⟨before, load, between, m, loaded, split, first, taken, rest, own, others, inside, loads⟩

/-! ### What a `metrics` body reports -/

omit [DecidableEq T] in
theorem answer_metrics {view : View} (reports : s.answer l = some (metrics view)) :
    ∃ request, s.point l.thread = .apiLoaded request view.apiRequests ∧
      view.chatRequests = s.gChatRequests := by
  cases l with
  | call t request => simp [answer] at reports
  | go t seen =>
    cases here : s.point t with
    | idle => simp [answer, here] at reports
    | entered request => simp [answer, here] at reports
    | counted request =>
      simp only [answer, here] at reports
      split at reports
      next => cases reports
      next other => exact absurd (asksMetrics_of_handle reports) other
    -- The body determines the two values, so they are the ones that were loaded.
    | apiLoaded request api =>
      simp only [answer, here] at reports
      rw [handle_of_asksMetrics _ (asksMetrics_of_handle reports)] at reports
      obtain ⟨apiRequests, chatRequests⟩ := metrics_injective (Option.some.inj reports)
      exact ⟨request, by rw [← apiRequests]; exact here, chatRequests.symm⟩

/-- In every interleaving what a `metrics` body reports for chats is below what it reports for all
requests, up to the chats counted between its two loads. -/
theorem metrics_reports_fewer_chats {ls : List (Label T)}
    (run : (machine T).exec new ls = some s) {view : View}
    (reports : s.answer l = some (metrics view)) :
    ∃ before load between loaded, ls = before ++ load :: between ∧
      (machine T).exec new (before ++ [load]) = some loaded ∧
      (∃ request, loaded.point l.thread = .apiLoaded request view.apiRequests) ∧
      (∀ k ∈ between, k.thread ≠ l.thread) ∧
      (((machine T).output apiCounted new before).length < 2 ^ 64 →
        view.chatRequests <
          view.apiRequests + ((machine T).output chatCounted loaded between).length) := by
  obtain ⟨request, here, chatRequests⟩ := answer_metrics reports
  obtain ⟨before, load, between, m, loaded, split, first, taken, rest, own, others, inside, counted,
    apiRequests, chats⟩ := exec_loaded run here
  have upTo : (machine T).exec new (before ++ [load]) = some loaded := by
    rw [Machine.exec_append first, Machine.exec_cons taken]
    rfl
  refine ⟨before, load, between, loaded, split, upTo, ⟨request, inside⟩, others, fun few => ?_⟩
  -- Both loads are compared with the requests counted so far.
  have atLoad := balanced_new.exec first
  have atAnswer := (atLoad.step taken).exec rest
  -- The thread itself has counted its request, and that is not a chat.
  obtain ⟨n, pending, most⟩ := atLoad.pending
  obtain ⟨k, rfl, _⟩ := pending.shrinks (t := l.thread) (by rw [counted]; rfl)
  have low := atAnswer.gChatRequests
  have high := atLoad.gApiRequests
  rw [chats, List.length_nil] at low
  rw [Nat.mod_eq_of_lt (by omega)] at high
  calc view.chatRequests
      = s.gChatRequests := chatRequests
    _ ≤ ((machine T).output chatCounted new before).length +
          ((machine T).output chatCounted loaded between).length := by
        rw [low]
        exact (Nat.mod_le _ _).trans (by omega)
    _ < ((machine T).output apiCounted new before).length +
          ((machine T).output chatCounted loaded between).length := by omega
    _ = view.apiRequests + ((machine T).output chatCounted loaded between).length := by omega

end

/-- Every `metrics` body reports fewer chats than requests. -/
def Consistent (T : Type*) [DecidableEq T] : Prop :=
  ∀ (ls : List (Label T)) (s : Workers T) (l : Label T) (view : View),
    (machine T).exec new ls = some s → s.answer l = some (metrics view) →
      view.chatRequests < view.apiRequests

/-- A thread asks for the counters, and another one chats between its two loads. -/
def chatBetween : List (Label Nat) :=
  let seen : View := ⟨none, none, [], 5, 0, 0⟩
  [.call 0 ⟨.get, bytes "/api/metrics", []⟩, .go 0 seen, .go 0 seen,
    .call 1 ⟨.post, bytes "/api/chat", bytes "hi"⟩, .go 1 seen, .go 1 seen]

theorem chatBetween_run : ∃ s, (machine Nat).exec new chatBetween = some s ∧
    s.answer (.go 0 ⟨none, none, [], 5, 0, 0⟩) = some (metrics ⟨none, none, [], 5, 1, 1⟩) :=
  Machine.exec_any (M := machine Nat)
    (fun s => s.answer (.go 0 ⟨none, none, [], 5, 0, 0⟩) = some (metrics ⟨none, none, [], 5, 1, 1⟩))
    new chatBetween (by decide +kernel)

theorem not_consistent : ¬Consistent Nat := by
  intro consistent
  obtain ⟨s, run, reports⟩ := chatBetween_run
  exact absurd (consistent _ _ _ _ run reports) (by decide)

/-- There the one request more that is reported is the chat. -/
theorem metrics_reports_fewer_chats_between : ∃ before load between loaded,
    chatBetween = before ++ load :: between ∧
      (machine Nat).exec new (before ++ [load]) = some loaded ∧
      (∃ request, loaded.point 0 = .apiLoaded request 1) ∧
      (∀ k ∈ between, k.thread ≠ 0) ∧
      (((machine Nat).output apiCounted new before).length < 2 ^ 64 →
        1 < 1 + ((machine Nat).output chatCounted loaded between).length) := by
  obtain ⟨s, run, reports⟩ := chatBetween_run
  exact metrics_reports_fewer_chats run reports

end Workers

end LightAgent.LightAgentGateway
