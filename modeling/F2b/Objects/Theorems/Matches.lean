import F2b.Objects.Matches
import Mathlib.Data.List.Induction
import Mathlib.Order.Bounds.Defs

-- What a container of matches is after any calls of the functions in matches.h.

namespace F2b.Matches

section Definitions

inductive Op
  | prepend (m : Match)
  | expire (before : Int)
  | flush
  deriving DecidableEq

def step (ms : Matches) : Op → Matches
  | .prepend m     => ms.prepend m
  | .expire before => ms.expire before
  | .flush         => flush

def run (ops : List Op) : Matches :=
  ops.foldl step flush

def Op.time? : Op → Option Int
  | prepend m => some m.time
  | _         => none

-- The times of the matches, in the order in which they are prepended.
def times (ops : List Op) : List Int :=
  ops.filterMap Op.time?

structure Chronological (ops : List Op) : Prop where
  nonneg : ∀ t ∈ times ops, 0 ≤ t
  mono   : (times ops).Pairwise (· ≤ ·)

-- What the fields of a container are to each other.
structure WellFormed (ms : Matches) : Prop where
  count  : ms.count = ms.list.length
  nonneg : ∀ m ∈ ms.list, 0 ≤ m.time
  sorted : ms.list.Pairwise (·.time ≥ ·.time)
  last   : ms.last = ms.list.head?.elim 0 (·.time)

-- What the functions are for. The sum that stops early is that of all matches, in integers and in an `int`.
structure Sound (ms : Matches) : Prop where
  count    : ms.count = ms.list.length
  sorted   : ms.list.Pairwise (·.time ≥ ·.time)
  empty    : ms.list = [] → ms.last = 0
  newest   : ms.list ≠ [] → IsGreatest { t | ∃ m ∈ ms.list, m.time = t } ms.last
  expire   : ∀ before, (ms.expire before).list = ms.list.filter (before < ·.time)
  score    : ∀ after, score after ms.list = ((ms.list.filter (after ≤ ·.time)).map (·.score)).sum
  scoreInt : ∀ after, scoreInt after 0 ms.list =
    toInt32 ((ms.list.filter (after ≤ ·.time)).map (·.score)).sum

end Definitions

section Loops

theorem toInt32_toInt32_add (a b : Int) : toInt32 (toInt32 a + b) = toInt32 (a + b) := by
  simp only [toInt32]
  omega

theorem scoreInt_eq (after s : Int) (ms : List Match) :
    scoreInt after (toInt32 s) ms = toInt32 (s + score after ms) := by
  induction ms generalizing s
  case nil          => rw [scoreInt, score, Int.add_zero]
  case cons m ms hi =>
    rw [scoreInt, score]
    split
    case isTrue  => rw [Int.add_zero]
    case isFalse => rw [toInt32_toInt32_add, hi, Int.add_assoc]

theorem takeWhile_eq_filter {ms : List Match} (h : ms.Pairwise (·.time ≥ ·.time)) (after : Int) :
    ms.takeWhile (after ≤ ·.time) = ms.filter (after ≤ ·.time) := by
  induction ms
  case nil          => rfl
  case cons m ms hi =>
    have ⟨hm, hs⟩ := List.pairwise_cons.mp h
    by_cases ha : after ≤ m.time
    case pos => simp [ha, hi hs]
    case neg =>
      have hn : ∀ m' ∈ ms, ¬after ≤ m'.time := fun m' hm' => by
        have := hm m' hm'
        omega
      simpa [ha] using hn

theorem unlink_snd (before : Int) (ns : List Match) (k : Nat) :
    (unlink before ns (ns.length + k)).snd = (ns.filter (before < ·.time)).length + k := by
  induction ns generalizing k
  case nil          => rfl
  case cons n ns hi =>
    rw [unlink, List.length_cons]
    by_cases h : before < n.time
    case pos =>
      have hl : ns.length + 1 + k = ns.length + (k + 1) := by omega
      rw [if_pos h, hl, List.filter_cons_of_pos (by simpa using h), List.length_cons]
      show (unlink before ns (ns.length + (k + 1))).snd = _
      rw [hi, Nat.add_right_comm, Nat.add_assoc]
    case neg =>
      have hl : ns.length + 1 + k - 1 = ns.length + k := by omega
      simp [h, hl, hi]

end Loops

section Steps

variable {ms : Matches} {m : Match} {ops : List Op}

theorem wellFormed_flush : WellFormed flush where
  count  := rfl
  nonneg := by simp [flush]
  sorted := .nil
  last   := rfl

theorem WellFormed.prepend (h : WellFormed ms) (h₀ : 0 ≤ m.time) (hm : ∀ m' ∈ ms.list, m'.time ≤ m.time) :
    WellFormed (ms.prepend m) where
  count  := congrArg (· + 1) h.count
  nonneg := List.forall_mem_cons.mpr ⟨h₀, h.nonneg⟩
  sorted := List.pairwise_cons.mpr ⟨hm, h.sorted⟩
  last   := by
    have hl : ms.last ≤ m.time := by
      rw [h.last]
      cases hl : ms.list.head?
      case none    => exact h₀
      case some m' => exact hm m' (List.mem_of_head? hl)
    simp only [Matches.prepend, List.head?_cons, Option.elim_some]
    omega

theorem WellFormed.expire (h : WellFormed ms) (before : Int) : WellFormed (ms.expire before) := by
  have hl := list_expire ms before
  refine ⟨?_, hl ▸ fun m hm => h.nonneg m (List.mem_filter.mp hm).1, hl ▸ h.sorted.filter _, ?_⟩
  case refine_1 =>
    rw [hl]
    by_cases h₀ : ms.list = []
    case pos => simp [Matches.expire, h₀, h.count]
    case neg =>
      have := unlink_snd before ms.list 0
      simpa [Matches.expire, h₀, h.count] using this
  case refine_2 =>
    by_cases h₀ : ms.list = []
    case pos => simpa [Matches.expire, h₀] using h.last
    case neg => simp [Matches.expire, h₀]

theorem WellFormed.sound (h : WellFormed ms) : Sound ms := by
  have hs (after : Int) : Matches.score after ms.list = ((ms.list.filter (after ≤ ·.time)).map (·.score)).sum := by
    rw [score_eq_sum, takeWhile_eq_filter h.sorted]
  refine ⟨h.count, h.sorted, fun he => ?_, fun hn => ?_, list_expire ms, hs, fun after => ?_⟩
  case refine_1 => simpa [he] using h.last
  case refine_2 =>
    obtain ⟨m, l, he⟩ := List.exists_cons_of_ne_nil hn
    have hl : ms.last = m.time := by simpa [he] using h.last
    refine ⟨⟨m, he ▸ List.mem_cons_self, hl.symm⟩, ?_⟩
    rintro _ ⟨m', hm, rfl⟩
    rw [hl]
    obtain rfl | hm := List.mem_cons.mp (he ▸ hm)
    case inl => exact Int.le_refl _
    case inr => exact (List.pairwise_cons.mp (he ▸ h.sorted)).1 m' hm
  case refine_3 =>
    have := scoreInt_eq after 0 ms.list
    rw [Int.zero_add, hs] at this
    exact this

theorem times_concat (ops : List Op) (op : Op) : times (ops ++ [op]) = times ops ++ op.time?.toList := by
  rw [times, List.filterMap_append]
  cases op <;> rfl

theorem Chronological.init {op : Op} (h : Chronological (ops ++ [op])) : Chronological ops := by
  obtain ⟨hn, hp⟩ := h
  rw [times_concat] at hn hp
  exact ⟨fun t ht => hn t (List.mem_append_left _ ht), (List.pairwise_append.mp hp).1⟩

theorem wellFormed_run (h : Chronological ops) :
    WellFormed (run ops) ∧ ∀ m ∈ (run ops).list, m.time ∈ times ops := by
  induction ops using List.reverseRecOn
  case nil                   => exact ⟨wellFormed_flush, by simp [run, flush]⟩
  case append_singleton ops op hi =>
    have ⟨hw, ht⟩ := hi h.init
    have hr : run (ops ++ [op]) = step (run ops) op := List.foldl_concat ..
    rw [hr, times_concat]
    cases op
    case flush         => exact ⟨wellFormed_flush, by simp [step, flush]⟩
    case expire before =>
      refine ⟨hw.expire before, fun m hm => List.mem_append_left _ (ht m ?_)⟩
      rw [step, list_expire] at hm
      exact (List.mem_filter.mp hm).1
    case prepend m     =>
      obtain ⟨hn, hp⟩ := h
      rw [times_concat] at hn hp
      have hm : m.time ∈ Op.time? (.prepend m) := rfl
      refine ⟨hw.prepend (hn _ ?_) fun m' hm' => ?_, ?_⟩
      case refine_1 => exact List.mem_append_right _ (Option.mem_toList.mpr hm)
      case refine_2 => exact (List.pairwise_append.mp hp).2.2 _ (ht m' hm') _ (Option.mem_toList.mpr hm)
      case refine_3 =>
        refine List.forall_mem_cons.mpr ⟨List.mem_append_right _ (Option.mem_toList.mpr hm), ?_⟩
        exact fun m' hm' => List.mem_append_left _ (ht m' hm')

theorem sound_run (h : Chronological ops) : Sound (run ops) :=
  (wellFormed_run h).1.sound

theorem sound_run_expire :
    Sound (run ([3, 5, 5].map (fun t => .prepend { Match.create t with score := 10 }) ++ [.expire 4])) :=
  sound_run ⟨by decide, by decide⟩

end Steps
end F2b.Matches
