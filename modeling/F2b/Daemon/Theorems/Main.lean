import F2b.Daemon.Main
import Mathlib.Data.List.Basic

-- The requests of one turn of the main loop, and what becomes of them.

namespace F2b

-- The last of some values that are written to a variable, or the one it had.
def latest (s : State) (states : List State) : State :=
  states.getLast?.getD s

theorem latest_append (s : State) (states₁ states₂ : List State) :
    latest s (states₁ ++ states₂) = latest (latest s states₁) states₂ := by
  cases h : states₂.getLast? <;> simp [latest, h]

theorem latest_eq_iff {s state : State} {states : List State} (h : s ≠ state) :
    latest s states = state ↔ states.getLast? = some state := by
  cases hl : states.getLast? <;> simp [latest, hl, h]

-- Every `r` in the list is followed by an `act`.
def Answered (r act : Event) : List Event → Prop
  | []      => True
  | e :: es => (e = r → act ∈ es) ∧ Answered r act es

instance (r act : Event) : (es : List Event) → Decidable (Answered r act es)
  | []      => .isTrue trivial
  | _ :: es =>
    have : Decidable (Answered r act es) := instDecidableAnswered r act es
    inferInstanceAs (Decidable (_ ∧ _))

theorem answered_append {r act : Event} {es₁ es₂ : List Event} :
    Answered r act (es₁ ++ es₂) ↔ (act ∈ es₂ ∨ Answered r act es₁) ∧ Answered r act es₂ := by
  induction es₁
  case nil          => simp [Answered]
  case cons e es hi => simp only [List.cons_append, Answered, hi, List.mem_append]; tauto

namespace Arrivals

variable (logdest : CString) (a : Arrivals) (s : State)

def written (signals : List Signal) : List State :=
  signals.map Signal.state

def states : List State :=
  a.pass.map Request.state ++ written (a.rotateTest ++ a.rotate ++ a.rotated) ++
  written (a.reloadTest ++ a.reload ++ a.reloaded)

def Rotates : Prop :=
  latest s (a.pass.map Request.state) = .logrotate ∧ logdest = "file".toList

instance : Decidable (a.Rotates logdest s) :=
  inferInstanceAs (Decidable (_ ∧ _))

-- What the test for `reconfig` can see: if the other one has succeeded, what came before the reset is
-- overwritten.
def early : List State :=
  if a.Rotates logdest s then written (a.rotate ++ a.rotated)
  else a.pass.map Request.state ++ written (a.rotateTest ++ a.rotate ++ a.rotated)

def Reloads : Prop :=
  latest (if a.Rotates logdest s then .run else s) (a.early logdest s) = .reconfig

instance : Decidable (a.Reloads logdest s) :=
  inferInstanceAs (Decidable (_ = _))

-- What the condition of the loop can see of the rest.
def late : List State :=
  if a.Reloads logdest s then written (a.reload ++ a.reloaded)
  else written (a.reloadTest ++ a.reload ++ a.reloaded)

-- The requests come in an order in which all of them are served.
structure Orderly : Prop where
  stop   : .stop ∈ a.states → (a.early logdest s ++ a.late logdest s).getLast? = some .stop
  reload : .stop ∉ a.states → .reconfig ∈ a.states →
    a.Reloads logdest s ∧ .reconfig ∉ written a.reloaded
  rotate : .stop ∉ a.states → logdest = "file".toList → .logrotate ∈ a.states →
    a.Rotates logdest s ∧ .logrotate ∉ written (a.rotated ++ a.reloadTest ++ a.reload ++ a.reloaded)

end Arrivals

namespace Loop

variable {logdest : CString} {a : Arrivals} {s : State} {l : Loop}

-- No request of a turn is lost: after a stop request the condition of the loop fails; without one each
-- reload request is followed by a reload, and each request to rotate by the reopening of the log file.
structure Kept (logdest : CString) (a : Arrivals) (s : State) : Prop where
  stop   : .stop ∈ a.states → (body logdest a ⟨s, []⟩).state = .stop
  reload : .stop ∉ a.states → Answered (.request .reconfig) .load (body logdest a ⟨s, []⟩).events
  rotate : .stop ∉ a.states → logdest = "file".toList →
    Answered (.request .logrotate) .reopen (body logdest a ⟨s, []⟩).events

theorem arrive_eq (l : Loop) (states : List State) :
    l.arrive states = ⟨latest l.state states, l.events ++ states.map .request⟩ := by
  induction states generalizing l
  case nil                => simp [arrive, latest]
  case cons state states hi =>
    have : l.arrive (state :: states) = arrive ⟨state, l.events ++ [.request state]⟩ states := rfl
    rw [this, hi]
    cases h : states.getLast? <;> simp [latest, h, List.getLast?_cons]

theorem rotated_eq (logdest : CString) (a : Arrivals) (s : State) :
    ((arrive ⟨s, []⟩ (a.pass.map Request.state)).rotateLog logdest a).arrive (Arrivals.written a.rotated) =
    ⟨latest (if a.Rotates logdest s then .run else s) (a.early logdest s),
      (a.pass.map Request.state ++ Arrivals.written (a.rotateTest ++ a.rotate)).map .request ++
      (if a.Rotates logdest s then [.reopen] else []) ++ (Arrivals.written a.rotated).map .request⟩ := by
  have hr : a.Rotates logdest s ↔
    latest s (a.pass.map Request.state) = .logrotate ∧ logdest = "file".toList := Iff.rfl
  by_cases h : a.Rotates logdest s
  case pos =>
    simp only [rotateLog, arrive_eq, if_pos (hr.mp h), if_pos h, write, act, Arrivals.early,
      Arrivals.written, ← latest_append]
    simp
  case neg =>
    simp only [rotateLog, arrive_eq, if_neg (mt hr.mpr h), if_neg h, Arrivals.early,
      Arrivals.written, ← latest_append]
    simp

-- A turn: what it leaves in `state`, and what happens in it.
theorem body_eq (logdest : CString) (a : Arrivals) (s : State) :
    body logdest a ⟨s, []⟩ =
    ⟨latest (if a.Reloads logdest s then .run else
        latest (if a.Rotates logdest s then .run else s) (a.early logdest s)) (a.late logdest s),
      (a.pass.map Request.state ++ Arrivals.written (a.rotateTest ++ a.rotate)).map .request ++
      (if a.Rotates logdest s then [.reopen] else []) ++
      (Arrivals.written (a.rotated ++ a.reloadTest ++ a.reload)).map .request ++
      (if a.Reloads logdest s then [.load] else []) ++ (Arrivals.written a.reloaded).map .request⟩ := by
  have hl := rotated_eq logdest a s
  have hb : body logdest a ⟨s, []⟩ = (reloadConfig a (((arrive ⟨s, []⟩
    (a.pass.map Request.state)).rotateLog logdest a).arrive (Arrivals.written a.rotated))).arrive
    (Arrivals.written a.reloaded) := rfl
  have hr : a.Reloads logdest s ↔ latest (if a.Rotates logdest s then .run else s)
    (a.early logdest s) = .reconfig := Iff.rfl
  rw [hb, hl]
  by_cases h : a.Reloads logdest s
  case pos =>
    simp only [reloadConfig, if_pos (hr.mp h), arrive_eq, if_pos h, write, act, Arrivals.late,
      Arrivals.written, ← latest_append]
    simp
  case neg =>
    simp only [reloadConfig, if_neg (mt hr.mpr h), arrive_eq, if_neg h, Arrivals.late,
      Arrivals.written, ← latest_append]
    simp

theorem not_mem_requests (act : Event) (ha : ∀ state, act ≠ .request state) (states : List State) :
    act ∉ states.map .request := by
  simpa using fun state _ => (ha state).symm

theorem answered_requests (r : State) {act : Event} (ha : ∀ state, act ≠ .request state)
    (states : List State) :
    Answered (.request r) act (states.map .request) ↔ r ∉ states := by
  induction states
  case nil                => simp [Answered]
  case cons state states hi => simp [Answered, not_mem_requests act ha states, hi, eq_comm]

theorem answered_other (p : Prop) [Decidable p] (r : State) (act e : Event) (hr : e ≠ .request r) (ha : act ≠ e) :
    Answered (.request r) act (if p then [e] else []) ∧ act ∉ (if p then [e] else []) := by
  split
  case isTrue  => simp [Answered, hr, ha]
  case isFalse => simp [Answered]

theorem mem_states_iff {state : State} : state ∈ a.states ↔
    state ∈ a.pass.map Request.state ++ Arrivals.written (a.rotateTest ++ a.rotate) ∨
    state ∈ Arrivals.written (a.rotated ++ a.reloadTest ++ a.reload) ∨
    state ∈ Arrivals.written a.reloaded := by
  simp only [Arrivals.states, Arrivals.written, List.map_append, List.mem_append]
  tauto

-- A reload answers all requests but those that come after it.
theorem answered_load_iff (logdest : CString) (a : Arrivals) (s : State) :
    Answered (.request .reconfig) .load (body logdest a ⟨s, []⟩).events ↔
    (.reconfig ∈ a.states → a.Reloads logdest s ∧ .reconfig ∉ Arrivals.written a.reloaded) := by
  have hq (states : List State) : Answered (.request .reconfig) .load (states.map .request) ↔
    .reconfig ∉ states := answered_requests .reconfig (by simp) states
  have hl := not_mem_requests .load (by simp)
  have ⟨ho, hn⟩ := answered_other (a.Rotates logdest s) .reconfig .load .reopen nofun nofun
  rw [body_eq, mem_states_iff]
  by_cases h : a.Reloads logdest s
  case pos =>
    simp only [if_pos h, answered_append, hq, hl, List.mem_singleton, Answered]
    grind
  case neg =>
    simp only [if_neg h, answered_append, hq, hl, ho, hn, List.not_mem_nil, Answered]
    grind

-- The log file is opened again for all requests but those that come after it.
theorem answered_reopen_iff (logdest : CString) (a : Arrivals) (s : State) :
    Answered (.request .logrotate) .reopen (body logdest a ⟨s, []⟩).events ↔
    (.logrotate ∈ a.states → a.Rotates logdest s ∧
      .logrotate ∉ Arrivals.written (a.rotated ++ a.reloadTest ++ a.reload ++ a.reloaded)) := by
  have hq (states : List State) : Answered (.request .logrotate) .reopen (states.map .request) ↔
    .logrotate ∉ states := answered_requests .logrotate (by simp) states
  have hl := not_mem_requests .reopen (by simp)
  have ⟨ho, hn⟩ := answered_other (a.Reloads logdest s) .logrotate .reopen .load nofun nofun
  have hw : .logrotate ∈ Arrivals.written (a.rotated ++ a.reloadTest ++ a.reload ++ a.reloaded) ↔
      .logrotate ∈ Arrivals.written (a.rotated ++ a.reloadTest ++ a.reload) ∨
      .logrotate ∈ Arrivals.written a.reloaded := by
    simp [Arrivals.written, or_assoc]
  rw [body_eq, mem_states_iff, hw]
  by_cases h : a.Rotates logdest s
  case pos =>
    simp only [if_pos h, answered_append, hq, hl, ho, hn, List.mem_singleton, Answered]
    grind
  case neg =>
    simp only [if_neg h, answered_append, hq, hl, ho, hn, List.not_mem_nil, Answered]
    grind

theorem state_body_iff (hs : s ≠ .stop) :
    (body logdest a ⟨s, []⟩).state = .stop ↔
    (a.early logdest s ++ a.late logdest s).getLast? = some .stop := by
  have hy : (if a.Rotates logdest s then .run else s) ≠ State.stop := by
    split
    · simp
    · exact hs
  have hx : (if a.Reloads logdest s then .run else
      latest (if a.Rotates logdest s then .run else s) (a.early logdest s)) = .stop ↔
      (a.early logdest s).getLast? = some .stop := by
    split
    case isFalse => exact latest_eq_iff hy
    case isTrue h =>
      have : (a.early logdest s).getLast? ≠ some .stop := fun he => by
        simp [Arrivals.Reloads, (latest_eq_iff hy).mpr he] at h
      simpa using this
  rw [body_eq, List.getLast?_append]
  cases hl : (a.late logdest s).getLast?
  case none   => simpa [latest, hl] using hx
  case some v => simp [latest, hl]

-- All requests of a turn are served in exactly the case that they come in such an order.
theorem kept_iff (hs : s ≠ .stop) : Kept logdest a s ↔ a.Orderly logdest s := by
  have hl := answered_load_iff logdest a s
  have hr := answered_reopen_iff logdest a s
  constructor
  · rintro ⟨hk, hk₁, hk₂⟩
    exact ⟨fun h => (state_body_iff hs).mp (hk h), fun h => hl.mp (hk₁ h), fun h hf => hr.mp (hk₂ h hf)⟩
  · rintro ⟨ho, ho₁, ho₂⟩
    exact ⟨fun h => (state_body_iff hs).mpr (ho h), fun h => hl.mpr (ho₁ h), fun h hf => hr.mpr (ho₂ h hf)⟩

theorem state_body (logdest : CString) (a : Arrivals) (l : Loop) :
    (body logdest a l).state = (body logdest a ⟨l.state, []⟩).state := by
  simp only [body, rotateLog, reloadConfig, arrive_eq]
  by_cases h : latest l.state (a.pass.map Request.state) = .logrotate ∧ logdest = "file".toList
  case pos => simp only [if_pos h, write, act]; split <;> rfl
  case neg => simp only [if_neg h]; split <;> rfl

-- The loop ends with the turn in which a stop request has come in such an order, whatever would follow.
theorem main_of_orderly (hl : l.state ≠ .stop) (ho : a.Orderly logdest l.state)
    (hs : .stop ∈ a.states) (as : List Arrivals) : main logdest (a :: as) l = l.body logdest a := by
  have hb : (l.body logdest a).state = .stop :=
    (state_body logdest a l).trans ((state_body_iff hl).mpr (ho.stop hs))
  have hm : main logdest as (l.body logdest a) = l.body logdest a := by
    cases as
    case nil  => rfl
    case cons => simp [main, hb]
  simp [main, hl, hm]

section Example

def signals (signals : List Signal) : Arrivals :=
  ⟨signals.map .signal, [], [], [], [], [], []⟩

theorem kept_reload_stop : Kept "file".toList (signals [.sighup, .sigterm]) .run :=
  (kept_iff (by decide)).mpr ⟨by decide, by decide, by decide⟩

-- A reload request after the stop request overwrites it.
theorem not_kept_stop_reload : ¬Kept "file".toList (signals [.sigterm, .sighup]) .run := by
  intro h
  have := h.stop
  revert this
  decide

end Example

end Loop
end F2b
