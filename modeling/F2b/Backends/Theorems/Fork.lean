import F2b.Backends.Cmd

-- Which processes return from the execution of a list of commands, and what has been executed then.

namespace F2b.Exec

section Definitions

-- What the execution of a list by a process is for.
structure Faithful (pid : Pid) (list : List Cmd) (o : Outcome) : Prop where
  caller  : o.returned.map (·.1) = [pid]
  result  : ∀ r ∈ o.returned, r.2 = true ↔ o.ran = list.map (·, .success)
  ordered : o.ran.map (·.1) <+: list
  stops   : ∀ e ∈ o.ran.dropLast, e.2 = .success

-- At every command that is reached, `fork` fails, or `execv` does not, and that the command fails is seen
-- unless the next `fork` fails.
def Clean (sys : Pid → Nat → Calls) (pid : Pid) : Nat → List Cmd → Prop
  | _, []        => True
  | i, _ :: list =>
    (sys pid i).forks → (sys pid i).execs ∧
      if (sys pid i).status = .success then Clean sys pid (i + 1) list
      else (sys pid i).waits ∨ (list ≠ [] ∧ (sys pid (i + 1)).forks = false)

end Definitions

section Processes

variable {sys : Pid → Nat → Calls} {pid : Pid} {i : Nat} {status : Status} {cmd : Cmd} {list : List Cmd}

theorem faithful_ret_true : Faithful pid [] (ret pid true) where
  caller  := rfl
  result  := by simp [ret]
  ordered := List.nil_prefix
  stops   := by simp [ret]

theorem faithful_ret_false (h : list ≠ []) : Faithful pid list (ret pid false) where
  caller  := rfl
  result  := by simp [ret, Ne.symm, h]
  ordered := List.nil_prefix
  stops   := by simp [ret]

theorem runList_of_not_forks (h : (sys pid i).forks = false) :
    runList sys pid i status (cmd :: list) = ret pid false := by
  simp [runList, h]

theorem runList_of_execs (hf : (sys pid i).forks) (he : (sys pid i).execs) {status' : Status}
    (hs : (if (sys pid i).waits then (sys pid i).status else status) = status') :
    runList sys pid i status (cmd :: list) =
    { returned := (if status' = .success then runList sys pid (i + 1) status' list else ret pid false).returned
      ran      := (cmd, (sys pid i).status) ::
        (if status' = .success then runList sys pid (i + 1) status' list else ret pid false).ran } := by
  simp only [runList, hf, he, hs, if_true, Outcome.join, List.nil_append, List.singleton_append]

theorem mem_returned (sys : Pid → Nat → Calls) (pid : Pid) (i : Nat) (status : Status) (list : List Cmd) :
    pid ∈ (runList sys pid i status list).returned.map (·.1) := by
  induction list generalizing i status
  case nil            => simp [runList, ret]
  case cons cmd list hi =>
    rw [runList]
    by_cases hf : (sys pid i).forks
    case neg => simp [hf, ret]
    case pos =>
      simp only [hf, if_true, Outcome.join, List.map_append]
      apply List.mem_append_right
      generalize (if (sys pid i).waits then (sys pid i).status else status) = status'
      split
      case isTrue  => exact hi ..
      case isFalse => simp [ret]

theorem not_caller (hf : (sys pid i).forks) (he : (sys pid i).execs = false) :
    (runList sys pid i status (cmd :: list)).returned.map (·.1) ≠ [pid] := by
  rw [runList]
  simp only [hf, he, if_true, Bool.false_eq_true, if_false, Outcome.join, List.map_append]
  intro h
  have hc := mem_returned sys (i :: pid) (i + 1) status list
  have hm : i :: pid ∈ [pid] := h ▸ List.mem_append_left _ hc
  simp at hm

theorem faithful_cons_iff {o : Outcome} :
    Faithful pid (cmd :: list) ⟨o.returned, (cmd, .success) :: o.ran⟩ ↔ Faithful pid list o := by
  have hr : (cmd, .success) :: o.ran = (cmd :: list).map (·, .success) ↔ o.ran = list.map (·, .success) := by simp
  have hs : (∀ e ∈ ((cmd, .success) :: o.ran).dropLast, e.2 = .success) ↔ ∀ e ∈ o.ran.dropLast, e.2 = .success := by
    cases o.ran <;> simp
  constructor
  case mp  =>
    intro h
    exact ⟨h.caller, fun r hm => (h.result r hm).trans hr, (List.cons_prefix_cons.mp h.ordered).2, hs.mp h.stops⟩
  case mpr =>
    intro h
    exact ⟨h.caller, fun r hm => (h.result r hm).trans hr.symm, List.cons_prefix_cons.mpr ⟨rfl, h.ordered⟩,
      hs.mpr h.stops⟩

theorem faithful_failed (h : status ≠ .success) : Faithful pid (cmd :: list) ⟨[(pid, false)], [(cmd, status)]⟩ where
  caller  := rfl
  result  := by simp [h]
  ordered := by simp
  stops   := by simp

theorem faithful_of_clean (h : Clean sys pid i list) : Faithful pid list (runList sys pid i .success list) := by
  induction list generalizing i
  case nil            => exact faithful_ret_true
  case cons cmd list hi =>
    by_cases hf : (sys pid i).forks
    case neg =>
      rw [runList_of_not_forks (Bool.eq_false_iff.mpr hf)]
      exact faithful_ret_false (by simp)
    case pos =>
      have ⟨he, h⟩ := h hf
      by_cases hs : (sys pid i).status = .success
      case pos =>
        rw [if_pos hs] at h
        have hw : (if (sys pid i).waits then (sys pid i).status else .success) = .success := by simp [hs]
        rw [runList_of_execs hf he hw, if_pos rfl, hs]
        exact faithful_cons_iff.mpr (hi h)
      case neg =>
        rw [if_neg hs] at h
        by_cases hw : (sys pid i).waits
        case pos =>
          rw [runList_of_execs hf he (if_pos hw), if_neg hs]
          exact faithful_failed hs
        case neg =>
          have ⟨hn, hf'⟩ := h.resolve_left hw
          obtain ⟨_, _, rfl⟩ := List.exists_cons_of_ne_nil hn
          rw [runList_of_execs hf he (if_neg hw), if_pos rfl, runList_of_not_forks hf']
          exact faithful_failed hs

theorem clean_of_faithful (h : Faithful pid list (runList sys pid i .success list)) : Clean sys pid i list := by
  induction list generalizing i
  case nil            => trivial
  case cons cmd list hi =>
    intro hf
    have he : (sys pid i).execs := by
      by_contra he
      exact not_caller hf (Bool.eq_false_iff.mpr he) h.caller
    refine ⟨he, ?_⟩
    by_cases hs : (sys pid i).status = .success
    case pos =>
      have hw : (if (sys pid i).waits then (sys pid i).status else .success) = .success := by simp [hs]
      rw [runList_of_execs hf he hw, if_pos rfl, hs] at h
      rw [if_pos hs]
      exact hi (faithful_cons_iff.mp h)
    case neg =>
      rw [if_neg hs]
      by_cases hw : (sys pid i).waits
      case pos => exact .inl hw
      case neg =>
        rw [runList_of_execs hf he (if_neg hw), if_pos rfl] at h
        cases list
        case nil       => exact absurd ((h.result _ List.mem_cons_self).mp rfl) (by simp [hs])
        case cons c l  =>
          refine .inr ⟨by simp, ?_⟩
          by_contra hf'
          have hf' := Bool.not_eq_false _ ▸ hf'
          by_cases he' : (sys pid (i + 1)).execs
          case neg => exact not_caller hf' (Bool.eq_false_iff.mpr he') h.caller
          case pos =>
            have := h.stops (cmd, (sys pid i).status) (by simp [runList_of_execs hf' he' rfl])
            exact hs this

-- The calling process starts with the first command.
theorem faithful_iff_clean (sys : Pid → Nat → Calls) (list : List Cmd) :
    Faithful [] list (runList sys [] 0 .success list) ↔ Clean sys [] 0 list :=
  ⟨clean_of_faithful, faithful_of_clean⟩

end Processes

section Model

variable {sys : Pid → Nat → Calls} {pid : Pid} {i : Nat}

-- Where all calls succeed, what is left to be known is which commands do.
theorem runList_eq (h : ∀ k, (sys pid k).forks ∧ (sys pid k).execs ∧ (sys pid k).waits) (list : List Cmd) :
    let done := cmdListExec (list.map (·.orig)) ((List.range' i list.length).map fun k => (sys pid k).status = .success)
    (runList sys pid i .success list).returned = [(pid, done.1)] ∧
    (runList sys pid i .success list).ran.map (·.1.orig) = done.2 := by
  induction list generalizing i
  case nil            => exact ⟨rfl, rfl⟩
  case cons cmd list hi =>
    have ⟨hf, he, hw⟩ := h i
    have ⟨hr, hc⟩ := @hi (i + 1)
    rw [runList_of_execs hf he (if_pos hw)]
    by_cases hs : (sys pid i).status = .success
    case pos => simp [cmdListExec, List.range'_succ, hs, hr, hc]
    case neg => simp [cmdListExec, List.range'_succ, hs, ret]

end Model

section Example

def command (str : String) : Cmd :=
  cmdFromStr str.toList

-- The first program does not exist. The child of the daemon returns as well.
def missing (pid : Pid) (i : Nat) : Calls where
  forks  := true
  execs  := pid ≠ [] || i ≠ 0
  status := .success
  waits  := true

theorem not_always_faithful : ¬∀ sys list, Faithful [] list (runList sys [] 0 .success list) := by
  intro h
  have := (h missing [command "/sbin/absent", command "/sbin/ipset list"]).caller
  revert this
  decide

end Example

end F2b.Exec
