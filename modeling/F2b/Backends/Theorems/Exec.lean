import F2b.Backends.Exec

-- How often the commands of shared instances are run.

namespace F2b

namespace Exec

def count (ids : List CfgId) (id : CString) : Nat :=
  ((Place.find? (·.name = id) ids).map (·.here.count)).getD 0

variable {ids : List CfgId} {id : CString} {cfg : Cfg} {exits : List Bool}

theorem count_of_find {e : Place CfgId} (h : Place.find? (·.name = id) ids = some e) :
    count ids id = e.here.count := by
  rw [count, h]
  rfl

theorem count_of_find_none (h : Place.find? (·.name = id) ids = none) : count ids id = 0 := by
  rw [count, h]
  rfl

theorem count_set {e : Place CfgId} (h : Place.find? (·.name = id) ids = some e) (n : Nat) (id' : CString) :
    count (e.set { e.here with count := n }).list id' = if id' = id then n else count ids id' := by
  have hq := Place.find?_here h
  have hn : e.here.name = id := of_decide_eq_true hq
  split
  case isTrue he =>
    subst he
    have hs := Place.find?_set h (a := { e.here with count := n }) (by simp [hn])
    simp only [count, hs]
    rfl
  case isFalse he =>
    have hq : ¬decide (e.here.name = id') := by simpa [hn] using Ne.symm he
    have hs := Place.find?_set_of_not (q := fun c => decide (c.name = id')) (a := { e.here with count := n }) hq hq
    rw [Place.find?_list h] at hs
    have hs := congrArg (·.map CfgId.count) hs
    simp only [Option.map_map, Function.comp_def] at hs
    simp only [count, hs]

theorem usageInc_eq (ids : List CfgId) (hf : id.length ≤ ID_MAX) :
    (usageInc ids id).1 = count ids id + 1 ∧
    ∀ id', count (usageInc ids id).2 id' = count ids id' + if id' = id then 1 else 0 := by
  simp only [usageInc]
  split
  case h_1 e h =>
    have hc := count_of_find h
    refine ⟨by rw [hc], fun id' => ?_⟩
    rw [count_set h]
    split
    case isTrue he => rw [he, hc]
    case isFalse   => rfl
  case h_2 h   =>
    have h0 := count_of_find_none h
    refine ⟨by rw [h0], fun id' => ?_⟩
    rw [CString.strlcpy_of_lt (Nat.lt_succ_of_le hf)]
    by_cases he : id' = id
    case pos => rw [he, h0]; simp [count, Place.find?]
    case neg => simp [he, count, Place.find?, Ne.symm he, Function.comp_def]

theorem usageDec_eq (ids : List CfgId) (id : CString) :
    (usageDec ids id).1 = count ids id - 1 ∧
    ∀ id', count (usageDec ids id).2 id' = count ids id' - if id' = id then 1 else 0 := by
  simp only [usageDec]
  split
  case h_1 e h =>
    have hc := count_of_find h
    refine ⟨by rw [hc], fun id' => ?_⟩
    rw [count_set h]
    split
    case isTrue he => rw [he, hc]
    case isFalse   => rfl
  case h_2 h   =>
    have h0 := count_of_find_none h
    refine ⟨by rw [h0], fun id' => ?_⟩
    split
    case isTrue he => rw [he, h0]
    case isFalse   => rfl

theorem ran_ne_nil_iff {list : List CString} : (cmdListExec list exits).2 ≠ [] ↔ list ≠ [] := by
  cases list
  case nil      => simp [cmdListExec]
  case cons c l =>
    simp only [cmdListExec]
    split <;> simp

-- The start commands of a shared instance are run while the count of its id is zero.
theorem start_eq (hs : cfg.shared) :
    (start cfg exits ids).1 =
      (if cfg.start ≠ [] ∧ count ids cfg.name = 0 then cmdListExec cfg.start exits else (true, [])) ∧
    ∀ id, count (start cfg exits ids).2 id =
      count ids id + if cfg.start ≠ [] ∧ id = cfg.name then 1 else 0 := by
  simp only [start]
  split
  case isTrue h  => simp [h]
  case isFalse h =>
    have ⟨hn, hc⟩ := usageInc_eq ids cfg.fits
    simp only [hn, h, ne_eq, not_false_eq_true, true_and]
    split
    case isTrue h0  => exact ⟨(if_neg (by omega)).symm, hc⟩
    case isFalse h0 => exact ⟨(if_pos (by omega)).symm, hc⟩

-- The stop commands of a shared instance are run once the count is zero again.
theorem stop_eq (hs : cfg.shared) :
    (stop cfg exits ids).1 =
      (if cfg.stop ≠ [] ∧ count ids cfg.name ≤ 1 then cmdListExec cfg.stop exits else (true, [])) ∧
    ∀ id, count (stop cfg exits ids).2 id =
      count ids id - if cfg.stop ≠ [] ∧ id = cfg.name then 1 else 0 := by
  simp only [stop]
  split
  case isTrue h  => simp [h]
  case isFalse h =>
    have ⟨hn, hc⟩ := usageDec_eq ids cfg.name
    simp only [hn, h, ne_eq, not_false_eq_true, true_and]
    split
    case isTrue h0  => exact ⟨(if_neg (by omega)).symm, hc⟩
    case isFalse h0 => exact ⟨(if_pos (by omega)).symm, hc⟩

end Exec

namespace Execs

open Exec (count)

variable {ι : Type} [DecidableEq ι] {cfg : ι → Exec.Cfg} {s s' : Execs ι} {act : Act ι} {acts : List (Act ι)}
  {i : ι} {exits : List Bool}

-- The start commands are run by the first instance of a group and the stop commands by the last one. An
-- instance whose start succeeds has start commands behind it that have succeeded.
def Keeps (cfg : ι → Exec.Cfg) (s s' : Execs ι) (act : Act ι) : Prop :=
  match act with
  | .start i _ =>
    ((s.outcome cfg act).2 ≠ [] ↔ (cfg i).start ≠ [] ∧ s.members cfg (cfg i) = []) ∧
    ((s.outcome cfg act).1 → (cfg i).start = [] ∨ cfg i ∈ s'.up)
  | .stop i _ => (s.outcome cfg act).2 ≠ [] ↔ (cfg i).stop ≠ [] ∧ s.members cfg (cfg i) = [i]

-- The count of the id tells whether the instance is the first or the last one of its group.
def Agrees (cfg : ι → Exec.Cfg) (s : Execs ι) : Act ι → Prop
  | .start i _ => (cfg i).start ≠ [] → (count s.ids (cfg i).name = 0 ↔ s.members cfg (cfg i) = [])
  | .stop i _  => (cfg i).stop ≠ [] → (count s.ids (cfg i).name ≤ 1 ↔ s.members cfg (cfg i) = [i])

-- The start commands of a group with a started instance have succeeded.
def Ready (cfg : ι → Exec.Cfg) (s : Execs ι) : Prop :=
  ∀ group : Exec.Cfg, group.start ≠ [] → s.members cfg group ≠ [] → group ∈ s.up

structure Starts (cfg : ι → Exec.Cfg) (s : Execs ι) (i : ι) (exits : List Bool) (s' : Execs ι) : Prop where
  new     : i ∉ s.started
  ids     : s'.ids = (Exec.start (cfg i) exits s.ids).2
  started : s'.started = if (s.outcome cfg (.start i exits)).1 then i :: s.started else s.started
  up      : s'.up = if (s.outcome cfg (.start i exits)).1 ∧ (s.outcome cfg (.start i exits)).2 ≠ [] then
    cfg i :: s.up else s.up

structure Stops (cfg : ι → Exec.Cfg) (s : Execs ι) (i : ι) (exits : List Bool) (s' : Execs ι) : Prop where
  old     : i ∈ s.started
  ids     : s'.ids = (Exec.stop (cfg i) exits s.ids).2
  started : s'.started = s.started.erase i
  up      : s'.up = if (s.outcome cfg (.stop i exits)).2 ≠ [] ∨ s.members cfg (cfg i) = [i] then
    s.up.filter (· ≠ cfg i) else s.up

theorem starts_of_step (h : s.Step cfg (.start i exits) s') : Starts cfg s i exits s' := by
  simp only [Step, step] at h
  split at h
  case isTrue     => cases h
  case isFalse hn =>
    obtain rfl := Option.some.inj h
    exact ⟨hn, rfl, rfl, rfl⟩

theorem stops_of_step (h : s.Step cfg (.stop i exits) s') : Stops cfg s i exits s' := by
  simp only [Step, step] at h
  split at h
  case isTrue ho =>
    obtain rfl := Option.some.inj h
    exact ⟨ho, rfl, rfl, rfl⟩
  case isFalse   => cases h

omit [DecidableEq ι] in
theorem ran_start_iff (hs : (cfg i).shared) :
    (s.outcome cfg (.start i exits)).2 ≠ [] ↔ (cfg i).start ≠ [] ∧ count s.ids (cfg i).name = 0 := by
  rw [outcome, (Exec.start_eq hs).1]
  split
  case isTrue h  => exact iff_of_true (Exec.ran_ne_nil_iff.mpr h.1) h
  case isFalse h => exact iff_of_false (by simp) h

omit [DecidableEq ι] in
theorem ran_stop_iff (hs : (cfg i).shared) :
    (s.outcome cfg (.stop i exits)).2 ≠ [] ↔ (cfg i).stop ≠ [] ∧ count s.ids (cfg i).name ≤ 1 := by
  rw [outcome, (Exec.stop_eq hs).1]
  split
  case isTrue h  => exact iff_of_true (Exec.ran_ne_nil_iff.mpr h.1) h
  case isFalse h => exact iff_of_false (by simp) h

omit [DecidableEq ι] in
theorem Ready.starts (h : s.Ready cfg) (hs : (cfg i).shared) (st : Starts cfg s i exits s')
    (ha : s.Agrees cfg (.start i exits)) : s'.Ready cfg := by
  intro group hg hm
  rw [members, st.started] at hm
  rw [st.up]
  by_cases hi : (s.outcome cfg (.start i exits)).1 ∧ cfg i = group
  case neg =>
    have hm : s.members cfg group ≠ [] := by
      split at hm
      case isTrue hok => rwa [List.filter_cons_of_neg (by simpa [hok] using hi)] at hm
      case isFalse    => exact hm
    have hu := h group hg hm
    split
    case isTrue  => exact List.mem_cons_of_mem _ hu
    case isFalse => exact hu
  case pos =>
    obtain ⟨hok, rfl⟩ := hi
    split
    case isTrue     => exact List.mem_cons_self
    case isFalse hr =>
      -- The commands are behind another instance of the group.
      exact h _ hg fun he => hr ⟨hok, (ran_start_iff hs).mpr ⟨hg, (ha hg).mpr he⟩⟩

theorem Ready.stops (h : s.Ready cfg) (hs : (cfg i).shared) (st : Stops cfg s i exits s')
    (ha : s.Agrees cfg (.stop i exits)) : s'.Ready cfg := by
  intro group hg hm
  rw [members, st.started, ← List.erase_filter] at hm
  have hu := h group hg fun he => hm (congrArg (·.erase i) he)
  rw [st.up]
  split
  case isFalse   => exact hu
  case isTrue hc =>
    refine List.mem_filter.mpr ⟨hu, decide_eq_true fun he => ?_⟩
    subst he
    have hl : s.members cfg (cfg i) = [i] := by
      obtain hr | hl := hc
      case inr => exact hl
      case inl =>
        have ⟨hp, hc⟩ := (ran_stop_iff hs).mp hr
        exact (ha hp).mp hc
    have he : (s.members cfg (cfg i)).erase i = [] := by rw [hl, List.erase_cons_head]
    exact hm he

theorem Ready.step (h : s.Ready cfg) (hs : ∀ i, (cfg i).shared)
    (hst : Transition.Guarded (Step cfg) (Agrees cfg) s act s') : s'.Ready cfg := by
  obtain ⟨hst, ha⟩ := hst
  cases act
  case start i _ => exact h.starts (hs i) (starts_of_step hst) ha
  case stop i _  => exact h.stops (hs i) (stops_of_step hst) ha

-- A step runs the commands of a shared instance when it is the first or the last one, exactly if the count agrees.
theorem keeps_iff_agrees (hs : ∀ i, (cfg i).shared) (h : s.Ready cfg) (hst : s.Step cfg act s') :
    s.Keeps cfg s' act ↔ s.Agrees cfg act := by
  cases act
  case start i exits =>
    simp only [Keeps, ran_start_iff (hs i), and_congr_right_iff]
    refine and_iff_left_of_imp fun ha hok => ?_
    by_cases hg : (cfg i).start = []
    case pos => exact .inl hg
    case neg =>
      have hr := h.step hs ⟨hst, ha⟩ (cfg i) hg
      refine .inr (hr ?_)
      rw [members, (starts_of_step hst).started, if_pos hok, List.filter_cons_of_pos (by simp)]
      exact List.cons_ne_nil _ _
  case stop i exits => simp only [Keeps, Agrees, ran_stop_iff (hs i), and_congr_right_iff]

-- Each instance has both lists or none, the commands of a first instance succeed, and an id is used by
-- one group at a time.
def Clean (cfg : ι → Exec.Cfg) (s : Execs ι) : Act ι → Prop
  | .start i exits =>
    ((cfg i).start = [] ↔ (cfg i).stop = []) ∧
    (s.members cfg (cfg i) = [] → (Exec.cmdListExec (cfg i).start exits).1) ∧
    ∀ j ∈ s.started, (cfg j).name = (cfg i).name → cfg j = cfg i
  | .stop ..       => True

structure Counted (cfg : ι → Exec.Cfg) (s : Execs ι) : Prop where
  paired : ∀ i ∈ s.started, (cfg i).start = [] ↔ (cfg i).stop = []
  same   : ∀ i ∈ s.started, ∀ j ∈ s.started, (cfg j).name = (cfg i).name → cfg j = cfg i
  count  : ∀ id, count s.ids id = (s.started.filter fun i => (cfg i).start ≠ [] ∧ (cfg i).name = id).length

omit [DecidableEq ι] in
theorem Counted.count_eq (h : s.Counted cfg) (hg : (cfg i).start ≠ [])
    (hs : ∀ j ∈ s.started, (cfg j).name = (cfg i).name → cfg j = cfg i) :
    Exec.count s.ids (cfg i).name = (s.members cfg (cfg i)).length := by
  rw [h.count, members]
  refine congrArg _ (List.filter_congr fun j hj => ?_)
  rw [decide_eq_decide]
  exact ⟨fun ⟨_, hn⟩ => hs j hj hn, fun he => by rw [he]; exact ⟨hg, rfl⟩⟩

theorem Counted.agrees (h : s.Counted cfg) (hst : s.Step cfg act s') (hc : s.Clean cfg act) :
    s.Agrees cfg act := by
  cases act <;> intro hg
  case start i exits => rw [h.count_eq hg hc.2.2, List.length_eq_zero_iff]
  case stop i exits  =>
    have ho := (stops_of_step hst).old
    have hm : i ∈ s.members cfg (cfg i) := List.mem_filter.mpr ⟨ho, by simp⟩
    rw [h.count_eq (mt (h.paired i ho).mp hg) fun j hj => h.same i ho j hj]
    generalize s.members cfg (cfg i) = l at hm
    constructor
    case mp  =>
      intro hl
      have ⟨j, hj⟩ := List.length_eq_one_iff.mp (Nat.le_antisymm hl (List.length_pos_of_mem hm))
      have hi : i = j := List.mem_singleton.mp (hj ▸ hm)
      rw [hj, hi]
    case mpr => rintro rfl; exact Nat.le_refl 1

omit [DecidableEq ι] in
theorem Counted.starts (h : s.Counted cfg) (hs : (cfg i).shared) (st : Starts cfg s i exits s')
    (hc : s.Clean cfg (.start i exits)) (ha : s.Agrees cfg (.start i exits)) : s'.Counted cfg := by
  have hok : (s.outcome cfg (.start i exits)).1 := by
    rw [outcome, (Exec.start_eq hs).1]
    split
    case isTrue hr => exact hc.2.1 ((ha hr.1).mp hr.2)
    case isFalse   => rfl
  have hst : s'.started = i :: s.started := st.started.trans (if_pos hok)
  refine ⟨?_, ?_, fun id => ?_⟩ <;> simp only [hst, List.forall_mem_cons]
  case refine_1 => exact ⟨hc.1, h.paired⟩
  case refine_2 =>
    exact ⟨⟨fun _ => trivial, hc.2.2⟩, fun j hj => ⟨fun he => (hc.2.2 j hj he.symm).symm, h.same j hj⟩⟩
  case refine_3 =>
    rw [st.ids, (Exec.start_eq hs).2, h.count, List.filter_cons]
    by_cases hi : (cfg i).start ≠ [] ∧ (cfg i).name = id
    case pos => simp [hi.1, hi.2]
    case neg => rw [if_neg fun hi' => hi ⟨hi'.1, hi'.2.symm⟩, if_neg (by simpa using hi), Nat.add_zero]

theorem Counted.stops (h : s.Counted cfg) (hs : (cfg i).shared) (st : Stops cfg s i exits s') :
    s'.Counted cfg := by
  have hm {j : ι} (hj : j ∈ s'.started) : j ∈ s.started := List.mem_of_mem_erase (st.started ▸ hj)
  refine ⟨fun j hj => h.paired j (hm hj), fun j hj k hk => h.same j (hm hj) k (hm hk), fun id => ?_⟩
  rw [st.ids, (Exec.stop_eq hs).2, h.count, st.started, ← List.erase_filter, List.length_erase]
  have hp := (h.paired i st.old).not
  have hi : i ∈ s.started.filter (fun i => (cfg i).start ≠ [] ∧ (cfg i).name = id) ↔
      (cfg i).stop ≠ [] ∧ id = (cfg i).name := by
    simp only [List.mem_filter, st.old, true_and, decide_eq_true_eq]
    exact and_congr hp eq_comm
  simp only [hi]
  split <;> rfl

theorem Counted.step (h : s.Counted cfg) (hs : ∀ i, (cfg i).shared)
    (hst : Transition.Guarded (Step cfg) (Clean cfg) s act s') : s'.Counted cfg := by
  obtain ⟨hst, hc⟩ := hst
  cases act
  case start i _ => exact h.starts (hs i) (starts_of_step hst) hc (h.agrees hst hc)
  case stop i _  => exact h.stops (hs i) (stops_of_step hst)

-- The first instance of a group runs the start commands and the last one the stop commands, exactly as long as the
-- counts agree with the groups. They do if no group has only one of the lists, no start fails and no id is used by two
-- groups at once.
theorem runs_once_iff (hs : ∀ i, (cfg i).shared) :
    (∀ acts s, Transition.Steps (Transition.Guarded (Step cfg) (Agrees cfg)) init acts s →
      ∀ act s', s.Step cfg act s' → (s.Keeps cfg s' act ↔ s.Agrees cfg act)) ∧
    ∀ acts s, Transition.Steps (Transition.Guarded (Step cfg) (Clean cfg)) init acts s →
      Transition.Steps (Transition.Guarded (Step cfg) (Agrees cfg)) init acts s := by
  constructor
  case left  =>
    intro acts s e act s' hst
    have hr : s.Ready cfg := e.invariant (fun _ _ _ hst h => h.step hs hst) fun _ _ hm => absurd rfl hm
    exact keeps_iff_agrees hs hr hst
  case right =>
    intro acts s e
    have h₀ : (init : Execs ι).Counted cfg := ⟨nofun, nofun, fun _ => rfl⟩
    refine (e.with_invariant (fun _ _ _ hst h => h.step hs hst) h₀).mono fun s act s' hst => ?_
    exact ⟨hst.1.1, hst.2.agrees hst.1.1 hst.1.2⟩

section Example

def ipset : Exec.Cfg :=
  { Exec.create "banned".toList with
    shared := true
    start  := ["/usr/sbin/ipset create banned hash:ip".toList]
    stop   := ["/usr/sbin/ipset destroy banned".toList] }

def bothRun (acts : List (Act Bool)) : Option (Execs Bool) :=
  Transition.replay (step fun _ => ipset) init acts

theorem runs_once_both :
    ∃ s s', bothRun [.start false []] = some s ∧ bothRun [.start false [], .start true []] = some s' ∧
    s.Keeps (fun _ => ipset) s' (.start true []) := by
  let s := (step (fun _ => ipset) init (.start false [])).get (by decide)
  let s' := (step (fun _ => ipset) s (.start true [])).get (by decide)
  have h : Step (fun _ => ipset) init (.start false []) s := (Option.some_get _).symm
  have h' : Step (fun _ => ipset) s (.start true []) s' := (Option.some_get _).symm
  have ⟨hk, hc⟩ := @runs_once_iff Bool _ (fun _ => ipset) fun _ => rfl
  have e := hc _ _ (.step ⟨h, by decide, by decide, by simp [init]⟩ .refl)
  exact ⟨s, s', rfl, rfl, (hk _ _ e _ _ h').mpr fun _ => by decide⟩

-- The first start fails. The second one succeeds without the commands.
theorem not_runs_once :
    ∃ s s', bothRun [.start false [false]] = some s ∧ s.Step (fun _ => ipset) (.start true []) s' ∧
    s.outcome (fun _ => ipset) (.start true []) = (true, []) ∧ s.started = [] ∧
    ¬s.Keeps (fun _ => ipset) s' (.start true []) := by
  refine ⟨_, _, (Option.some_get (show (bothRun [.start false [false]]).isSome by decide)).symm,
    (Option.some_get (by decide)).symm, by decide, by decide, fun h => ?_⟩
  have hr := h.1.mpr (by decide)
  exact hr (by decide)

end Example

end Execs

end F2b
