import F2b.Jail.Theorems.System
import Mathlib.Data.List.Nodup

-- The bans of a jail and the addresses that its backend blocks.

namespace F2b

namespace Blocklist

-- A call that succeeds, or a release of an address that is not blocked.
def Call.Harmless (c : Call) : Prop :=
  c.ok ∨ (c.kind = .unban ∧ ¬c.known)

instance (c : Call) : Decidable c.Harmless :=
  inferInstanceAs (Decidable (_ ∨ _))

def AllHarmless (b : Blocklist) : Prop :=
  ∀ c ∈ b.calls, c.Harmless

instance (b : Blocklist) : Decidable b.AllHarmless :=
  inferInstanceAs (Decidable (∀ c ∈ b.calls, c.Harmless))

variable {b b' : Blocklist} {ip t : CString}

theorem AllHarmless.of_sublist (h : b'.AllHarmless) (hs : b.calls.Sublist b'.calls) : b.AllHarmless :=
  fun c hc => h c (hs.subset hc)

theorem block_of_mem (h : ip ∈ b.blocked) : Backend.block ip b = b := by
  simp [Backend.block, Backend.check, h]

theorem block_of_not_mem (h : ip ∉ b.blocked) :
    Backend.block ip b = (act .ban ip (ip :: ·) b).2 := by
  simp [Backend.block, Backend.check, h]
  rfl

theorem calls_act {kind : Kind} {write : List CString → List CString} :
    (act kind ip write b).2.calls =
    b.calls ++ [⟨kind, ip, ip ∈ b.blocked, b.answer⟩] :=
  rfl

theorem calls_block_sublist : b.calls.Sublist (Backend.block ip b).calls := by
  by_cases h : ip ∈ b.blocked
  case pos => simp only [block_of_mem h, List.Sublist.refl]
  case neg => simp only [block_of_not_mem h, calls_act, List.sublist_append_left]

theorem calls_unban_sublist : b.calls.Sublist (Backend.unban ip b).2.calls :=
  List.sublist_append_left ..

theorem mem_block_iff (h : (Backend.block ip b).AllHarmless) :
    t ∈ (Backend.block ip b).blocked ↔ t = ip ∨ t ∈ b.blocked := by
  by_cases hk : ip ∈ b.blocked
  case pos =>
    rw [block_of_mem hk, iff_or_self]
    rintro rfl
    exact hk
  case neg =>
    rw [block_of_not_mem hk] at h ⊢
    have hc := h _ (calls_act ▸ List.mem_append_right _ List.mem_cons_self)
    have ho : b.answer := by simpa [Call.Harmless] using hc
    simp [act, ho]

theorem mem_unban_iff (h : (Backend.unban ip b).2.AllHarmless) :
    t ∈ (Backend.unban ip b).2.blocked ↔ t ≠ ip ∧ t ∈ b.blocked := by
  have hc := h ⟨.unban, ip, ip ∈ b.blocked, b.answer⟩ <|
    List.mem_append_right _ List.mem_cons_self
  cases ho : b.answer
  case true  => simp [Backend.unban, act, ho, and_comm]
  case false =>
    have hn : ip ∉ b.blocked := by simpa [Call.Harmless, ho] using hc
    simp only [Backend.unban, act, ho, Bool.false_eq_true, if_false, iff_and_self]
    rintro ht rfl
    exact hn ht

end Blocklist

namespace Jail

def Holds (l : List Ipaddr) (ip : CString) : Prop :=
  ∃ a ∈ l, a.banned ∧ a.text = ip

instance (l : List Ipaddr) (ip : CString) : Decidable (Holds l ip) :=
  inferInstanceAs (Decidable (∃ a ∈ l, _))

-- The backend blocks what the list holds banned, and the list has one record of each address.
structure Agree (x : List Ipaddr × Blocklist) : Prop where
  nodup : (Addrlist.texts x.1).Nodup
  mem   : ∀ ip, ip ∈ x.2.blocked ↔ Holds x.1 ip

variable {inet : Inet} {x y : List Ipaddr × Blocklist} {p : Place Ipaddr} {ip : CString}

theorem holds_place_iff :
    Holds p.list ip ↔ (p.here.banned ∧ p.here.text = ip) ∨ Holds (p.before ++ p.after) ip :=
  p.exists_mem_iff

-- Where each address has one record, the others do not hold the address of this one.
theorem not_holds_others (h : (Addrlist.texts p.list).Nodup) :
    ¬Holds (p.before ++ p.after) p.here.text := by
  rintro ⟨a, ha, _, ht⟩
  simp only [Addrlist.texts, Place.list, List.map_append, List.map_cons, List.nodup_middle,
    List.nodup_cons] at h
  exact h.1 (List.map_append ▸ ht ▸ List.mem_map_of_mem ha)

theorem Move.calls (m : Move inet x y) : x.2.calls.Sublist y.2.calls := by
  cases m
  case ban   => exact Blocklist.calls_block_sublist
  case unban => exact Blocklist.calls_unban_sublist
  all_goals exact .refl _

theorem Move.nodup {β : Type} [Backend β] {x y : List Ipaddr × β} (m : Move inet x y)
    (h : (Addrlist.texts x.1).Nodup) : (Addrlist.texts y.1).Nodup := by
  obtain ⟨_, _, hn, he⟩ | hs := m.texts
  case inl => exact he ▸ List.nodup_cons.mpr ⟨hn, h⟩
  case inr => exact h.sublist hs

theorem Agree.move (m : Move inet x y) (hh : y.2.AllHarmless) (h : Agree x) : Agree y := by
  refine ⟨m.nodup h.nodup, fun ip => ?_⟩
  have hm := h.mem ip
  have hn := h.nodup
  cases m
  case ping         => exact hm
  case create hc _  => simpa [Holds, Ipaddr.banned_create hc] using hm
  case touch a ht   =>
    rw [holds_place_iff] at hm ⊢
    simpa [ht.text, ht.banned] using hm
  case ban s _      =>
    rw [Blocklist.mem_block_iff hh, hm, holds_place_iff, holds_place_iff]
    simp [banned]
    grind
  case unban        =>
    have ho := not_holds_others hn
    rw [Blocklist.mem_unban_iff hh, hm, holds_place_iff, holds_place_iff]
    simp [released]
    grind
  case forget hb    =>
    rw [holds_place_iff] at hm
    simpa [hb] using hm

theorem Moves.calls (m : Moves inet x y) : x.2.calls.Sublist y.2.calls := by
  induction m
  case refl        => exact .refl _
  case tail _ m hi => exact hi.trans m.calls

theorem Agree.moves (m : Moves inet x y) (hh : y.2.AllHarmless) (h : Agree x) : Agree y := by
  induction m
  case refl        => exact h
  case tail _ m hi => exact (hi (hh.of_sublist m.calls)).move m hh

theorem holds_cons_iff {a : Ipaddr} {as : List Ipaddr} :
    Holds (a :: as) ip ↔ (a.banned ∧ a.text = ip) ∨ Holds as ip := by
  simp [Holds]

theorem blockAll_cons (a : Ipaddr) (as : List Ipaddr) (b : Blocklist) :
    blockAll (a :: as) b = blockAll as (if a.banned then Backend.block a.text b else b) := by
  cases hb : a.banned <;> simp [blockAll, hb]

theorem unblockAll_cons (a : Ipaddr) (as : List Ipaddr) (b : Blocklist) :
    unblockAll (a :: as) b = unblockAll as (if a.banned then (Backend.unban a.text b).2 else b) := by
  cases hb : a.banned <;> simp [unblockAll, hb]

theorem calls_blockAll (as : List Ipaddr) (b : Blocklist) :
    b.calls.Sublist (blockAll as b).calls := by
  induction as generalizing b
  case nil          => exact .refl _
  case cons a as hi =>
    rw [blockAll_cons]
    split
    · exact Blocklist.calls_block_sublist.trans (hi _)
    · exact hi b

theorem calls_unblockAll (as : List Ipaddr) (b : Blocklist) :
    b.calls.Sublist (unblockAll as b).calls := by
  induction as generalizing b
  case nil          => exact .refl _
  case cons a as hi =>
    rw [unblockAll_cons]
    split
    · exact Blocklist.calls_unban_sublist.trans (hi _)
    · exact hi b

theorem mem_blockAll_iff (ip : CString) {as : List Ipaddr} {b : Blocklist} (hh : (blockAll as b).AllHarmless) :
    ip ∈ (blockAll as b).blocked ↔ Holds as ip ∨ ip ∈ b.blocked := by
  induction as generalizing b
  case nil          => simp [blockAll, Holds]
  case cons a as hi =>
    rw [blockAll_cons] at hh ⊢
    rw [hi hh, holds_cons_iff]
    have hs := hh.of_sublist (calls_blockAll as _)
    cases hb : a.banned
    case false => simp
    case true  =>
      simp only [hb, if_true] at hs ⊢
      rw [Blocklist.mem_block_iff hs]
      grind

theorem mem_unblockAll_iff (ip : CString) {as : List Ipaddr} {b : Blocklist} (hh : (unblockAll as b).AllHarmless) :
    ip ∈ (unblockAll as b).blocked ↔ ¬Holds as ip ∧ ip ∈ b.blocked := by
  induction as generalizing b
  case nil          => simp [unblockAll, Holds]
  case cons a as hi =>
    rw [unblockAll_cons] at hh ⊢
    rw [hi hh, holds_cons_iff]
    have hs := hh.of_sublist (calls_unblockAll as _)
    cases hb : a.banned
    case false => simp
    case true  =>
      simp only [hb, if_true] at hs ⊢
      rw [Blocklist.mem_unban_iff hs]
      grind

end Jail

namespace System

variable {env : Env} {s s' : System Blocklist} {op : Op}

def Fresh (s : System Blocklist) : Prop :=
  s.up = false ∧ s.jail.ipaddrs = [] ∧ s.world.backend.blocked = []

-- The state file that a start reads lists no address twice.
def LoadsDistinct (env : Env) (s : System Blocklist) (op : Op) : Prop :=
  ∀ params now, op = .start params now → (Addrlist.texts (loaded env params s)).Nodup

structure Consistent (s : System Blocklist) : Prop where
  running : s.up → s.jail.settings.Running
  idle    : ¬s.up → s.jail.ipaddrs = []
  agree   : s.world.backend.AllHarmless → Jail.Agree s.view

theorem Consistent.step (h : s.Step env op s') (hl : LoadsDistinct env s op) (hc : s.Consistent) :
    s'.Consistent := by
  obtain ⟨params, now, rfl, st⟩ | ⟨_, rfl, st⟩ | st := h.cases
  case inl =>
    refine ⟨fun _ => st.running, fun hu => absurd st.up hu, fun hh => ?_⟩
    have hi : s.jail.ipaddrs = [] := hc.idle (by simp [st.down])
    have hs := st.backend ▸ Jail.calls_blockAll s'.jail.ipaddrs s.world.backend
    have ha := hc.agree (hh.of_sublist hs)
    refine ⟨?_, fun ip => ?_⟩
    · rw [view, Jail.view, st.ipaddrs, texts_lapse]
      exact hl params now rfl
    · have hn : ip ∉ s.world.backend.blocked := by simpa [view, Jail.view, hi, Jail.Holds] using ha.mem ip
      have hm := Jail.mem_blockAll_iff ip (st.backend ▸ hh)
      simpa [view, Jail.view, ← st.backend, hn] using hm
  case inr.inl =>
    refine ⟨fun hu => by simp [st.down] at hu, fun _ => st.ipaddrs, fun hh => ?_⟩
    have hb : s'.world.backend = Jail.unblockAll s.jail.ipaddrs s.world.backend :=
      st.backend (hc.running st.up).hasBackend
    have ha := hc.agree (hh.of_sublist (hb ▸ Jail.calls_unblockAll ..))
    refine ⟨by simp [view, Jail.view, st.ipaddrs, Addrlist.texts], fun ip => ?_⟩
    have hm := Jail.mem_unblockAll_iff ip (hb ▸ hh)
    have hn : ip ∈ s.world.backend.blocked ↔ Jail.Holds s.jail.ipaddrs ip := ha.mem ip
    simp only [view, Jail.view, st.ipaddrs, hb, hm, hn, not_and_self_iff]
    simp [Jail.Holds]
  case inr.inr =>
    refine ⟨fun _ => st.settings (hc.running st.up), fun hu => absurd st.up' hu, fun hh => ?_⟩
    have hm := st.moves (hc.running st.up)
    exact (hc.agree (hh.of_sublist hm.calls)).moves hm hh

theorem consistent_of_reachable
    (h : Transition.Reachable Fresh (Transition.Guarded (Step env) (LoadsDistinct env)) s) : s.Consistent := by
  refine h.invariant (fun s hf => ⟨fun hu => by simp [hf.1] at hu, fun _ => hf.2.1, fun _ => ?_⟩)
    fun _ _ _ hs hc => hc.step hs.1 hs.2
  refine ⟨by simp [view, Jail.view, hf.2.1, Addrlist.texts], fun ip => ?_⟩
  simp [view, Jail.view, hf.2.1, hf.2.2, Jail.Holds]

-- In every run where no ban fails and no release of a blocked address does, an address is blocked
-- exactly if the jail holds it banned.
theorem blocked_iff_banned
    (h : Transition.Reachable Fresh (Transition.Guarded (Step env) (LoadsDistinct env)) s)
    (hh : s.world.backend.AllHarmless) (ip : CString) :
    ip ∈ s.world.backend.blocked ↔ ∃ a ∈ s.jail.ipaddrs, a.banned ∧ a.text = ip :=
  ((consistent_of_reachable h).agree hh).mem ip

section Example

def banOps : List Op :=
  [.start sshParams 1000, .ip 1001 1 "192.0.2.7".toList]

theorem blocked_iff_banned_after_ban :
    ∃ s, sshRun [] banOps = some s ∧ ("192.0.2.7".toList ∈ s.world.backend.blocked ↔
      ∃ a ∈ s.jail.ipaddrs, a.banned ∧ a.text = "192.0.2.7".toList) := by
  have hr := (Option.some_get (show (sshRun [] banOps).isSome by decide)).symm
  have e : Transition.Steps (Step quadEnv) _ banOps _ := .of_replay hr
  refine ⟨_, hr, blocked_iff_banned ⟨_, banOps, ⟨rfl, rfl, rfl⟩, e.guard ?_⟩ (by decide) _⟩
  rintro op hop s params now rfl
  obtain ⟨rfl, rfl⟩ : params = sshParams ∧ now = 1000 := by simpa [banOps] using hop
  rw [loaded_sshParams]
  exact .nil

-- The backend refuses the ban, and the jail holds the host banned nevertheless.
theorem banned_not_blocked :
    ∃ s, Transition.Reachable Fresh (Step quadEnv) s ∧
    ¬∀ ip, ip ∈ s.world.backend.blocked ↔ ∃ a ∈ s.jail.ipaddrs, a.banned ∧ a.text = ip := by
  refine ⟨(sshRun [false] banOps).get (by decide),
    ⟨_, _, ⟨rfl, rfl, rfl⟩, .of_replay (Option.some_get _).symm⟩, fun h => ?_⟩
  have := h "192.0.2.7".toList
  revert this
  decide

end Example
end System
end F2b
