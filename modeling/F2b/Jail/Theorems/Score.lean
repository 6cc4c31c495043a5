import F2b.Jail.Theorems.Lines

-- Which matches decide about a ban.

namespace F2b

namespace Matches

def total (ms : List Match) : Int :=
  (ms.map (·.score)).sum

theorem total_append (ms ns : List Match) : total (ms ++ ns) = total ms + total ns := by
  simp [total]

theorem total_filter_add (q : Match → Bool) (ms : List Match) :
    total (ms.filter q) + total (ms.filter (!q ·)) = total ms := by
  induction ms
  case nil          => rfl
  case cons m ms hi => cases hq : q m <;> simp [hq, total] at hi ⊢ <;> omega

variable (findtime now : Int)

-- The matches that should count now are those of the last `findtime` seconds.
def inWindow (m : Match) : Bool :=
  now - findtime ≤ m.time && m.time ≤ now

-- Those that the list keeps are up to 600 seconds older, and the sum takes those up to the first
-- one with a time below `findtime`.
def kept (ms : List Match) : List Match :=
  ms.filter (now - findtime - 600 < ·.time)

def summed (ms : List Match) : List Match :=
  (kept findtime now ms).takeWhile (findtime ≤ ·.time)

def cut (ms : List Match) : List Match :=
  (kept findtime now ms).dropWhile (findtime ≤ ·.time)

theorem summed_cons (m : Match) (ms : List Match) :
    summed findtime now (m :: ms) =
      if m.time ≤ now - findtime - 600 then summed findtime now ms
      else if findtime ≤ m.time then m :: summed findtime now ms else [] := by
  simp only [summed, kept, List.filter_cons]
  by_cases hk : m.time ≤ now - findtime - 600
  case pos => simp [hk, Int.not_lt.mpr hk]
  case neg => by_cases hf : findtime ≤ m.time <;> simp [hk, hf, Int.not_le.mp hk]

def windowScore (ms : List Match) : Int :=
  total (ms.filter (inWindow findtime now))

-- What the sum has too much, and what it lacks.
def outsideScore (ms : List Match) : Int :=
  total ((summed findtime now ms).filter (!inWindow findtime now ·))

def missedScore (ms : List Match) : Int :=
  total ((cut findtime now ms).filter (inWindow findtime now))

theorem filter_kept (ms : List Match) :
    (kept findtime now ms).filter (inWindow findtime now) = ms.filter (inWindow findtime now) := by
  rw [kept, List.filter_filter]
  refine List.filter_congr fun m _ => ?_
  simp only [inWindow]
  grind

theorem total_summed (ms : List Match) :
    total (summed findtime now ms) =
    windowScore findtime now ms + (outsideScore findtime now ms - missedScore findtime now ms) := by
  have hk : kept findtime now ms = summed findtime now ms ++ cut findtime now ms :=
    List.takeWhile_append_dropWhile.symm
  have hw : windowScore findtime now ms =
      total ((summed findtime now ms).filter (inWindow findtime now)) + missedScore findtime now ms := by
    rw [windowScore, ← filter_kept, hk, List.filter_append, total_append, missedScore]
  have ho := total_filter_add (inWindow findtime now) (summed findtime now ms)
  rw [hw, outsideScore]
  omega

end Matches

namespace Jail

variable {β : Type} [Backend β]

-- Whether the match bans the host at `p`.
def bannedBy (jail : Jail) (p : Place Ipaddr) (now : Int) (stag : UInt32) (hit : Hit) (w : World β) :
    Bool :=
  ((jail.observe p now stag hit w).1.ipaddrs[p.before.length]?).any (·.banned)

def withHit (addr : Ipaddr) (now : Int) (stag : UInt32) (hit : Hit) : List Match :=
  ⟨now, stag, hit.ftag, hit.score⟩ :: addr.history.list

-- Two sums lead to the same decision.
def SameSide (limit a b : Int) : Prop :=
  (limit ≤ a ∧ limit ≤ b) ∨ (a < limit ∧ b < limit)

instance (limit a b : Int) : Decidable (SameSide limit a b) :=
  inferInstanceAs (Decidable (_ ∨ _))

-- The score of the matches in the window, and what the code adds to it and leaves out.
def dueScore (s : Settings) (addr : Ipaddr) (now : Int) (stag : UInt32) (hit : Hit) : Int :=
  Matches.windowScore (s.findtimeEff addr.bancount) now (withHit addr now stag hit)

def surplus (s : Settings) (addr : Ipaddr) (now : Int) (stag : UInt32) (hit : Hit) : Int :=
  Matches.outsideScore (s.findtimeEff addr.bancount) now (withHit addr now stag hit) -
  Matches.missedScore (s.findtimeEff addr.bancount) now (withHit addr now stag hit)

variable {jail : Jail} {p : Place Ipaddr} {now : Int} {stag : UInt32} {hit : Hit} {w : World β}

theorem score_expireMatches (s : Settings) (addr : Ipaddr) (now : Int) (stag : UInt32) (hit : Hit) :
    score s (expireMatches s now (seen addr ⟨now, stag, hit.ftag, hit.score⟩)) =
    toShort (dueScore s addr now stag hit + surplus s addr now stag hit) := by
  rw [dueScore, surplus, ← Matches.total_summed]
  simp only [score, expireMatches, seen, Matches.prepend, Matches.score_eq_sum, Matches.list_expire]
  rfl

-- A host that is not banned is banned by a match in exactly the case that its score is reached.
theorem observe_of_not_banned (jail : Jail) (now : Int) (stag : UInt32) (hit : Hit) (w : World β)
    (hb : p.here.banned = false) :
    ∃ a, (jail.observe p now stag hit w).1.ipaddrs = (p.set a).list ∧
    (a.banned ↔ jail.settings.banscore ≤
      score jail.settings (expireMatches jail.settings now (seen p.here ⟨now, stag, hit.ftag, hit.score⟩))) := by
  have hs : ¬(seen p.here ⟨now, stag, hit.ftag, hit.score⟩).banned := by simp [seen, hb]
  rw [← Int.not_lt]
  simp only [observe, hs, Bool.false_eq_true, if_false]
  split
  case isTrue  h => exact ⟨_, rfl, by simp only [h, not_true, iff_false]; exact hs⟩
  case isFalse h =>
    obtain ⟨_, _, he, _⟩ := ban_eq { jail with stats.found := jail.stats.found + 1 }
      (expireMatches jail.settings now (seen p.here ⟨now, stag, hit.ftag, hit.score⟩))
      (w.send (evtMatch jail.name (seen p.here ⟨now, stag, hit.ftag, hit.score⟩)
        ⟨now, stag, hit.ftag, hit.score⟩))
    exact ⟨_, by rw [he], by simp [banned, h]⟩

theorem bannedBy_iff (hb : p.here.banned = false) :
    jail.bannedBy p now stag hit w ↔ jail.settings.banscore ≤
    toShort (dueScore jail.settings p.here now stag hit + surplus jail.settings p.here now stag hit) := by
  have ⟨a, he, ha⟩ := observe_of_not_banned jail now stag hit w hb
  rw [← score_expireMatches, ← ha, bannedBy, he]
  simp

-- The decision is the one that the window calls for in exactly the case that the matches outside it
-- and those the sum lacks do not change it.
theorem bannedBy_window_iff (hb : p.here.banned = false) :
    (jail.bannedBy p now stag hit w ↔
      jail.settings.banscore ≤ dueScore jail.settings p.here now stag hit) ↔
    SameSide jail.settings.banscore (dueScore jail.settings p.here now stag hit)
      (toShort (dueScore jail.settings p.here now stag hit +
        surplus jail.settings p.here now stag hit)) := by
  rw [bannedBy_iff hb, SameSide]
  omega

-- Where no match lies ahead of now or before `findtime`, only those that are too old are added.
theorem surplus_of_past {s : Settings} {addr : Ipaddr}
    (h : ∀ m ∈ withHit addr now stag hit, s.findtimeEff addr.bancount ≤ m.time ∧ m.time ≤ now) :
    surplus s addr now stag hit = Matches.total ((withHit addr now stag hit).filter fun m =>
      now - s.findtimeEff addr.bancount - 600 < m.time ∧ m.time < now - s.findtimeEff addr.bancount) := by
  have hk : ∀ m ∈ Matches.kept (s.findtimeEff addr.bancount) now (withHit addr now stag hit),
      (s.findtimeEff addr.bancount ≤ m.time : Bool) := fun m hm => by
    simpa using (h m (List.mem_filter.mp hm).1).1
  have hs := List.takeWhile_eq_self_iff.mpr hk
  have hc := List.dropWhile_eq_nil_iff.mpr hk
  simp only [surplus, Matches.outsideScore, Matches.missedScore, Matches.summed, Matches.cut, hs, hc]
  rw [Matches.kept, List.filter_filter, List.filter_nil, Matches.total, Matches.total, Matches.total,
    List.map_nil, List.sum_nil, Int.sub_zero]
  refine congrArg (fun l => (List.map Match.score l).sum) (List.filter_congr fun m hm => ?_)
  have := h m hm
  simp only [Matches.inWindow]
  grind

-- With a history that lies in the window nothing is added, and the decision is the right one as long
-- as the sum fits its type.
theorem surplus_of_recent {s : Settings} {addr : Ipaddr}
    (h : ∀ m ∈ withHit addr now stag hit,
      s.findtimeEff addr.bancount ≤ m.time ∧ Matches.inWindow (s.findtimeEff addr.bancount) now m) :
    surplus s addr now stag hit = 0 := by
  have hn : ((withHit addr now stag hit).filter fun m =>
      now - s.findtimeEff addr.bancount - 600 < m.time ∧
      m.time < now - s.findtimeEff addr.bancount) = [] := by
    refine List.filter_eq_nil_iff.mpr fun m hm => ?_
    have := (h m hm).2
    simp only [Matches.inWindow, Bool.and_eq_true, decide_eq_true_eq] at this
    simp only [decide_eq_true_eq]
    omega
  have hp : ∀ m ∈ withHit addr now stag hit, s.findtimeEff addr.bancount ≤ m.time ∧ m.time ≤ now :=
    fun m hm => ⟨(h m hm).1, by simpa using (Bool.and_eq_true_iff.mp (h m hm).2).2⟩
  rw [surplus_of_past hp, hn]
  rfl

theorem bannedBy_of_recent (hb : p.here.banned = false)
    (h : ∀ m ∈ withHit p.here now stag hit, jail.settings.findtimeEff p.here.bancount ≤ m.time ∧
      Matches.inWindow (jail.settings.findtimeEff p.here.bancount) now m)
    (h₁ : -2 ^ 15 ≤ dueScore jail.settings p.here now stag hit)
    (h₂ : dueScore jail.settings p.here now stag hit < 2 ^ 15) :
    jail.bannedBy p now stag hit w ↔
    jail.settings.banscore ≤ dueScore jail.settings p.here now stag hit := by
  rw [bannedBy_iff hb, surplus_of_recent h, Int.add_zero, toShort_eq_self h₁ h₂]

-- The value that a pass compares with `banscore`, and the sum that it stands for.
def compared (s : Settings) (now : Int) (addr : Ipaddr) : Int :=
  score s (expireMatches s now addr)

def sum (s : Settings) (now : Int) (addr : Ipaddr) : Int :=
  Matches.total (Matches.summed (s.findtimeEff addr.bancount) now addr.history.list)

def withMatch (addr : Ipaddr) (m : Match) : Ipaddr :=
  { addr with history := addr.history.prepend m }

def FitsShort (n : Int) : Prop :=
  -2 ^ 15 ≤ n ∧ n < 2 ^ 15

instance (n : Int) : Decidable (FitsShort n) :=
  inferInstanceAs (Decidable (_ ∧ _))

-- The sums are compared as they are, without and with the match, which does not undo a ban.
structure ExactScore (s : Settings) (now : Int) (addr : Ipaddr) (m : Match) : Prop where
  without : compared s now addr = sum s now addr
  added   : compared s now (withMatch addr m) = sum s now (withMatch addr m)
  mono    : s.banscore ≤ compared s now addr → s.banscore ≤ compared s now (withMatch addr m)

-- Where the match is kept but lies before `findtime`, it ends the sum before its first term.
def Passable (s : Settings) (now : Int) (addr : Ipaddr) (m : Match) : Prop :=
  m.time ≤ now - s.findtimeEff addr.bancount - 600 ∨ s.findtimeEff addr.bancount ≤ m.time ∨
  sum s now addr < s.banscore ∨ s.banscore ≤ 0

instance (s : Settings) (now : Int) (addr : Ipaddr) (m : Match) : Decidable (Passable s now addr m) :=
  inferInstanceAs (Decidable (_ ∨ _))

theorem compared_eq (s : Settings) (now : Int) (addr : Ipaddr) :
    compared s now addr = toShort (sum s now addr) := by
  simp only [compared, score, expireMatches, Matches.score_eq_sum, Matches.list_expire]
  rfl

theorem toShort_eq_self_iff (n : Int) : toShort n = n ↔ FitsShort n := by
  simp only [toShort, FitsShort]
  omega

theorem sum_withMatch (s : Settings) (now : Int) (addr : Ipaddr) (m : Match) :
    sum s now (withMatch addr m) =
      if m.time ≤ now - s.findtimeEff addr.bancount - 600 then sum s now addr
      else if s.findtimeEff addr.bancount ≤ m.time then m.score + sum s now addr else 0 := by
  have hs : sum s now (withMatch addr m) =
      Matches.total (Matches.summed (s.findtimeEff addr.bancount) now (m :: addr.history.list)) := rfl
  rw [hs, Matches.summed_cons, apply_ite Matches.total, apply_ite Matches.total]
  rfl

theorem mono_iff_passable (s : Settings) (now : Int) (addr : Ipaddr) {m : Match} (h : 0 ≤ m.score) :
    (s.banscore ≤ sum s now addr → s.banscore ≤ sum s now (withMatch addr m)) ↔ Passable s now addr m := by
  rw [sum_withMatch, Passable]
  split
  case isTrue hk  => simp [hk]
  case isFalse hk =>
    split
    case isTrue hf  => simp only [hf, true_or, or_true, iff_true]; omega
    case isFalse hf => simp only [hk, hf, false_or]; omega

-- Whatever the history, the exact sums are compared and one more match does not undo a ban, if and only if
-- both sums fit a `short` and the match does not cut off the others.
theorem exactScore_iff (s : Settings) (now : Int) (addr : Ipaddr) {m : Match} (h : 0 ≤ m.score) :
    ExactScore s now addr m ↔
    FitsShort (sum s now addr) ∧ FitsShort (sum s now (withMatch addr m)) ∧ Passable s now addr m := by
  rw [← mono_iff_passable s now addr h, ← toShort_eq_self_iff, ← toShort_eq_self_iff,
    ← compared_eq, ← compared_eq]
  constructor
  case mp =>
    intro ⟨hw, ha, hm⟩
    exact ⟨hw, ha, hw ▸ ha ▸ hm⟩
  case mpr =>
    intro ⟨hw, ha, hm⟩
    exact ⟨hw, ha, by rwa [hw, ha]⟩

section Example

-- A host with four matches a few minutes before the last five, and a limit of five.
def oldHits : Ipaddr where
  type      := .inet
  text      := "192.0.2.7".toList
  banned    := false
  bancount  := 0
  lastseen  := 9500
  bannedAt  := 0
  releaseAt := 0
  binary    := [192, 0, 2, 7]
  history   := ⟨4, 9500, List.replicate 4 ⟨9500, 1, 1, 10⟩⟩

def sshJail : Jail :=
  Jail.create (fun _ => 0) .builtin ⟨"ssh".toList, .jail, []⟩

theorem bannedBy_window_ten_minutes_later :
    (sshJail.bannedBy ⟨[], oldHits, []⟩ 10500 1 ⟨1, oldHits.text, 10⟩
      (⟨⟨[], [], []⟩, [], fun _ => none⟩ : World Blocklist) ↔
      sshJail.settings.banscore ≤ dueScore sshJail.settings oldHits 10500 1 ⟨1, oldHits.text, 10⟩) :=
  (bannedBy_window_iff rfl).mpr (by decide +kernel)

-- The four matches at 9500 are outside the window from 9700 to 10000, but are counted at 10000.
theorem bannedBy_old_hits :
    ¬(sshJail.bannedBy ⟨[], oldHits, []⟩ 10000 1 ⟨1, oldHits.text, 10⟩
      (⟨⟨[], [], []⟩, [], fun _ => none⟩ : World Blocklist) ↔
      sshJail.settings.banscore ≤ dueScore sshJail.settings oldHits 10000 1 ⟨1, oldHits.text, 10⟩) := by
  decide +kernel

def tenMore : Match :=
  ⟨10500, 1, 1, 10⟩

theorem exactScore_old_hits : ExactScore sshJail.settings 10500 oldHits tenMore :=
  (exactScore_iff sshJail.settings 10500 oldHits (by decide)).mpr (by decide +kernel)

def heavyFilter : Filter :=
  Filters.preg (fun _ _ line => some (5, line.length)) IPADDR_MAX [⟨"from <HOST>$".toList, 1, 30000, false⟩]

def heavyOps : List Op :=
  [.process heavyFilter 1001 [(7, "from 192.0.2.7".toList)] .complete,
   .process heavyFilter 4590 [(7, "from 192.0.2.7".toList)] .complete,
   .process heavyFilter 4602 [] .complete]

def heavyHits : System Blocklist :=
  (Transition.replay (System.step System.quadEnv) sshStarted heavyOps).get (by decide +kernel)

-- One match is enough for a ban, two are not.
theorem not_exactScore_heavy_hits :
    ∃ a ∈ heavyHits.jail.ipaddrs, ¬a.banned ∧
      heavyHits.jail.settings.banscore ≤ compared heavyHits.jail.settings 4610 a ∧
      ¬ExactScore heavyHits.jail.settings 4610 a ⟨4610, 7, 1, 30000⟩ := by
  have ⟨a, ha, hb, hs, hn⟩ : ∃ a ∈ heavyHits.jail.ipaddrs, ¬a.banned ∧
      heavyHits.jail.settings.banscore ≤ compared heavyHits.jail.settings 4610 a ∧
      ¬heavyHits.jail.settings.banscore ≤
        compared heavyHits.jail.settings 4610 (withMatch a ⟨4610, 7, 1, 30000⟩) := by
    decide +kernel
  exact ⟨a, ha, hb, hs, fun h => hn (h.mono hs)⟩

end Example

end Jail
end F2b
