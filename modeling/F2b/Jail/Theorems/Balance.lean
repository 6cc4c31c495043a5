import F2b.Backends.Blocklist
import F2b.Backends.Traced
import F2b.Jail.Theorems.Calls
import Mathlib.Data.List.Count

-- The bans of a jail balance: each address that it has its backend block is either blocked by a record of its list
-- or has been released again, but for what the commands ask for besides.

namespace F2b

variable {β : Type} [Backend β] {t ip : CString}

namespace Traced

variable {b : Traced β}

-- How often the backend has been asked to block an address, or has known it when it was to be asked, and how often
-- it has been asked to release it.
def blocks (t : CString) (b : Traced β) : Nat :=
  b.calls.countP fun call => call.1 ≠ .unban ∧ call.2 = t

def releases (t : CString) (b : Traced β) : Nat :=
  b.calls.countP fun call => call.1 = .unban ∧ call.2 = t

theorem blocks_block (t ip : CString) (b : Traced β) :
    blocks t (Backend.block ip b) = blocks t b + (if ip = t then 1 else 0) ∧
    releases t (Backend.block ip b) = releases t b := by
  simp only [Backend.block, Backend.check, pass]
  split
  case isTrue  => simp [blocks, releases, note, List.countP_append, List.countP_singleton]
  case isFalse => simp [blocks, releases, note, List.countP_append, List.countP_singleton, Backend.ban, pass]

theorem blocks_unban (t ip : CString) (b : Traced β) :
    blocks t (Backend.unban ip b).2 = blocks t b ∧
    releases t (Backend.unban ip b).2 = releases t b + (if ip = t then 1 else 0) := by
  simp [blocks, releases, note, List.countP_append, List.countP_singleton, Backend.unban, pass]

end Traced

open Traced (blocks releases blocks_block blocks_unban)

namespace Jail

variable {l as : List Ipaddr} {p : Place Ipaddr} {a : Ipaddr} {b : Traced β}

def Bans (t : CString) (a : Ipaddr) : Bool :=
  a.banned ∧ a.text = t

def bannedAs (t : CString) (l : List Ipaddr) : Nat :=
  l.countP (Bans t)

theorem bannedAs_set (t : CString) (p : Place Ipaddr) (a : Ipaddr) :
    bannedAs t (p.set a).list + (if Bans t p.here then 1 else 0) =
      bannedAs t p.list + (if Bans t a then 1 else 0) := by
  simp only [bannedAs, Place.list, Place.before_set, Place.after_set, Place.here_set, List.countP_append,
    List.countP_cons]
  omega

theorem blocks_blockAll (t : CString) (as : List Ipaddr) (b : Traced β) :
    blocks t (blockAll as b) = blocks t b + bannedAs t as ∧ releases t (blockAll as b) = releases t b := by
  simp only [blockAll, bannedAs]
  induction as generalizing b
  case nil          => exact ⟨rfl, rfl⟩
  case cons a as hi =>
    obtain ⟨h₁, h₂⟩ := blocks_block t a.text b
    cases hb : a.banned
    case false => simpa [hb, Bans] using hi b
    case true  =>
      obtain ⟨hi₁, hi₂⟩ := hi (Backend.block a.text b)
      simp only [List.filter_cons, hb, if_true, List.foldl_cons, hi₁, hi₂, h₁, h₂, List.countP_cons, Bans, true_and,
        decide_eq_true_eq, and_true]
      omega

theorem blocks_unbans (t : CString) (as : List Ipaddr) (b : Traced β) :
    blocks t (as.foldl (fun b a => (Backend.unban a.text b).2) b) = blocks t b ∧
    releases t (as.foldl (fun b a => (Backend.unban a.text b).2) b) = releases t b + as.countP (·.text = t) := by
  induction as generalizing b
  case nil          => exact ⟨rfl, rfl⟩
  case cons a as hi =>
    have ⟨h₁, h₂⟩ := blocks_unban t a.text b
    have ⟨hi₁, hi₂⟩ := hi (Backend.unban a.text b).2
    simp only [List.foldl_cons, hi₁, hi₂, h₁, h₂, List.countP_cons, decide_eq_true_eq, true_and]
    omega

-- What has been blocked and what is, up to so many calls more or less.
structure Balanced (t : CString) (bans unbans : Nat) (l : List Ipaddr) (b : Traced β) : Prop where
  le : blocks t b ≤ bannedAs t l + releases t b + bans
  ge : bannedAs t l + releases t b ≤ blocks t b + unbans

section Records

variable {n m : Nat}

omit [Backend β] in
theorem Balanced.congr {l' : List Ipaddr} (h : Balanced t n m l b) (hl : bannedAs t l' = bannedAs t l) :
    Balanced t n m l' b :=
  ⟨hl ▸ h.le, hl ▸ h.ge⟩

omit [Backend β] in
theorem Balanced.mono {n' m' : Nat} (h : Balanced t n m l b) (hn : n ≤ n') (hm : m ≤ m') : Balanced t n' m' l b :=
  ⟨Nat.le_trans h.le (Nat.add_le_add_left hn _), Nat.le_trans h.ge (Nat.add_le_add_left hm _)⟩

theorem bannedAs_set_of_eq (hb : a.banned = p.here.banned) (ht : a.text = p.here.text) :
    bannedAs t (p.set a).list = bannedAs t p.list := by
  have := bannedAs_set t p a
  have he : Bans t a = Bans t p.here := by simp [Bans, hb, ht]
  rw [he] at this
  omega

theorem Balanced.ban (h : Balanced t n m p.list b) (hp : ¬p.here.banned) (ha : a.banned) :
    Balanced t n m (p.set a).list (Backend.block a.text b) := by
  have ⟨hb, hr⟩ := blocks_block t a.text b
  have hs := bannedAs_set t p a
  have h₁ : Bans t p.here = false := by simp [Bans, hp]
  have h₂ : Bans t a = decide (a.text = t) := by simp [Bans, ha]
  simp only [h₁, h₂, Bool.false_eq_true, if_false, decide_eq_true_eq] at hs
  have ⟨hl, hg⟩ := h
  exact ⟨by omega, by omega⟩

end Records

section Pass

variable {inet : Inet} {jail jail' : Jail} {w w' : World (Traced β)} {filter : Filter} {now : Int} {n m : Nat}

theorem Balanced.consume {stag : UInt32} {line : CString}
    (h : consume inet filter now stag line jail w = .ok (jail', w')) (hb : Balanced t n m jail.ipaddrs w.backend) :
    Balanced t n m jail'.ipaddrs w'.backend := by
  obtain ⟨_, he⟩ | ⟨hit, p, _, hp, he⟩ := consume_ok h
  case inl =>
    obtain ⟨rfl, rfl⟩ := Prod.mk.inj he
    exact hb
  case inr =>
    have hp : Balanced t n m p.list w.backend := by
      obtain hl | ⟨new, hw, _, rfl⟩ := track_ok hp
      case inl => exact Addrlist.lookup_list hl ▸ hb
      case inr =>
        have hn : Bans t new = false := by simp [Bans, Ipaddr.banned_create hw]
        exact hb.congr (List.countP_cons_of_neg (by simp [hn]))
    obtain ⟨a, ha, _, ⟨_, _, ho, hw, _⟩ | ⟨_, _, hn, ho, hw, _⟩⟩ := observe_eq jail p now stag hit w
    all_goals
      obtain ⟨rfl, rfl⟩ := Prod.mk.inj (he.trans ho)
      rw [hw]
    case inl => exact hp.congr (bannedAs_set_of_eq ha.banned ha.text)
    case inr => exact hp.ban (a := banned jail.settings a) (ha.banned ▸ hn) rfl

theorem Balanced.gather {feed : List (UInt32 × CString)} (h : gather inet filter now feed jail w = .ok (jail', w'))
    (hb : Balanced t n m jail.ipaddrs w.backend) : Balanced t n m jail'.ipaddrs w'.backend :=
  gather_induction (P := fun j v => Balanced t n m j.ipaddrs v.backend) (fun _ h hb => hb.consume h) h
    ⟨hb.le, hb.ge⟩

theorem bannedAs_pass (t : CString) (now : Int) (jail : Jail) (he : 0 ≤ jail.settings.expiretime) (as : List Ipaddr) :
    bannedAs t ((as.map (eased now)).filter (!jail.expired now ·)) + (as.filter (due now)).countP (·.text = t) =
      bannedAs t as := by
  simp only [bannedAs]
  induction as
  case nil          => rfl
  case cons a as hi =>
    rw [List.map_cons, List.countP_cons, ← hi]
    cases hd : due now a
    case true =>
      have hdue : a.banned ∧ a.releaseAt < now := by simpa [due] using hd
      have hn : Bans t (eased now a) = false := by simp [eased, hdue.1, hdue.2, released, Bans]
      have ha : Bans t a = decide (a.text = t) := by simp [Bans, hdue.1]
      have hf : ((eased now a :: as.map (eased now)).filter (!jail.expired now ·)).countP (Bans t) =
          ((as.map (eased now)).filter (!jail.expired now ·)).countP (Bans t) := by
        cases hx : jail.expired now (eased now a) <;> simp [hx, hn]
      rw [hf, List.filter_cons_of_pos hd, List.countP_cons, ha, Nat.add_assoc]
    case false =>
      have hdue : a.banned → now ≤ a.releaseAt := by simpa [due] using hd
      have hea : eased now a = a := by
        simp only [eased]
        exact if_neg (by simpa using hdue)
      rw [hea, List.filter_cons_of_neg (p := due now) (by simp [hd])]
      cases hx : jail.expired now a
      case false =>
        rw [List.filter_cons_of_pos (p := (!jail.expired now ·)) (by simp [hx]), List.countP_cons]
        omega
      case true =>
        have hb : Bans t a = false := by simp [Bans, not_banned_of_expired he hdue hx]
        rw [List.filter_cons_of_neg (p := (!jail.expired now ·)) (by simp [hx]), hb]
        rfl

theorem Balanced.tidy (now : Int) (he : 0 ≤ jail.settings.expiretime) (hb : Balanced t n m jail.ipaddrs w.backend) :
    Balanced t n m (tidy now jail w).1.ipaddrs (tidy now jail w).2.backend := by
  have ⟨hl, hw⟩ := maintain_eq jail now jail.ipaddrs w
  have ⟨h₁, h₂⟩ := blocks_unbans t (jail.ipaddrs.filter (due now)) w.backend
  have hs := bannedAs_pass t now jail he jail.ipaddrs
  have hl : (Jail.tidy now jail w).1.ipaddrs = _ := hl
  have hw : (Jail.tidy now jail w).2.backend = _ := hw
  have ⟨hle, hge⟩ := hb
  rw [hl, hw, releaseDue]
  exact ⟨by omega, by omega⟩

theorem Balanced.process {feed : List (UInt32 × CString)} {fate : SaveFate}
    (h : process inet filter now feed fate jail w = .ok (jail', w')) (he : 0 ≤ jail.settings.expiretime)
    (hb : Balanced t n m jail.ipaddrs w.backend) : Balanced t n m jail'.ipaddrs w'.backend := by
  have ⟨_, _, hg, hl, hw⟩ := process_tidy h
  rw [hl, hw]
  exact (hb.gather hg).tidy now ((gather_frame hg).settings ▸ he)

end Pass

section Commands

variable {inet : Inet} {status : Ipaddr → CString} {ressize : Nat} {op now : Int} {jail jail' : Jail}
  {w w' : World (Traced β)} {n m : Nat}

theorem Balanced.operate (hp : p.here.text = ip) (hl : op = 0 → jail.ipaddrs = p.list)
    (hb : Balanced t n m p.list w.backend) :
    Balanced t (n + if op > 0 ∧ ip = t then 1 else 0) (m + if op < 0 ∧ ip = t then 1 else 0)
      (operate status ressize op jail p w).2.1.ipaddrs (operate status ressize op jail p w).2.2.backend := by
  have hle := hb.le
  have hge := hb.ge
  obtain ⟨_, ⟨h0, he⟩ | ⟨h0, _, he, hw, _⟩ | ⟨h0, _, he, hw, _⟩⟩ := operate_eq status ressize op jail p w
  all_goals rw [he]
  case inl     => exact (hb.congr (by rw [hl h0])).mono (Nat.le_add_right ..) (Nat.le_add_right ..)
  case inr.inl =>
    obtain ⟨h₁, h₂⟩ := blocks_block t p.here.text w.backend
    have hs := bannedAs_set t p (banned jail.settings p.here)
    have ha : Bans t (banned jail.settings p.here) = decide (ip = t) := by simp [Bans, banned, hp]
    have hh : Bans t p.here → ip = t := by simp [Bans, hp]
    rw [hp] at h₁ h₂ hw
    dsimp only
    rw [hw]
    simp only [ha, decide_eq_true_eq] at hs
    constructor <;> grind
  case inr.inr =>
    obtain ⟨h₁, h₂⟩ := blocks_unban t p.here.text w.backend
    have hs := bannedAs_set t p (released p.here)
    have ha : Bans t (released p.here) = false := by simp [Bans, released]
    have hh : Bans t p.here → ip = t := by simp [Bans, hp]
    rw [hp] at h₁ h₂ hw
    dsimp only
    rw [hw]
    simp only [ha, Bool.false_eq_true, if_false] at hs
    constructor <;> grind

theorem Balanced.cmdIp {reply : CString} (h : cmdIp inet status ressize op now ip jail w = (reply, jail', w'))
    (hv : AllValid inet jail.ipaddrs) (hb : Balanced t n m jail.ipaddrs w.backend) :
    Balanced t (n + if op > 0 ∧ ip = t then 1 else 0) (m + if op < 0 ∧ ip = t then 1 else 0)
      jail'.ipaddrs w'.backend := by
  obtain ⟨_, he⟩ | ⟨p, hl, he⟩ | ⟨hp, hl, new, stats, hw, he⟩ := cmdIp_eq inet status ressize op now jail ip w
  all_goals
    have he := h.symm.trans he
    obtain ⟨rfl, rfl⟩ : jail' = _ ∧ w' = _ := ⟨congrArg (·.2.1) he, congrArg (·.2.2) he⟩
  case inl     => exact hb.mono (Nat.le_add_right ..) (Nat.le_add_right ..)
  case inr.inl =>
    have hp := Addrlist.lookup_list hl
    exact .operate (Addrlist.lookup_text hl hv.length_lt) (fun _ => hp.symm) (hp ▸ hb)
  case inr.inr =>
    have hn : Bans t (fresh now new) = false := by simp [Bans, fresh, Ipaddr.banned_create hw]
    have ht : new.text = ip := Ipaddr.text_create hw
    refine .operate ht (fun h0 => absurd h0 (by omega)) (hb.congr ?_)
    exact List.countP_cons_of_neg (by simp [hn])

end Commands

end Jail

namespace System

variable {env : Env} {s s' : System (Traced β)} {op : Op} {ops : List Op}

def bansBy (t : CString) : Op → Bool
  | .ip _ op ip => op > 0 ∧ ip = t
  | _           => false

def releasesBy (t : CString) : Op → Bool
  | .ip _ op ip => op < 0 ∧ ip = t
  | _           => false

structure Balanced (env : Env) (t : CString) (n m : Nat) (s : System (Traced β)) : Prop where
  wellformed : s.Wellformed env
  down       : ¬s.up → s.jail.ipaddrs = []
  balanced   : Jail.Balanced t n m s.jail.ipaddrs s.world.backend

section Pass

variable {n m : Nat} {jail : Jail} {world : World (Traced β)} {now : Int}

theorem Balanced.consume {filter : Filter} {stag : UInt32} {line : CString} (hu : s.up)
    (h : Jail.consume env.inet filter now stag line s.jail s.world = .ok (jail, world)) (hs : s.Balanced env t n m) :
    { s with jail, world }.Balanced env t n m :=
  ⟨hs.wellformed.consume h, fun hd => absurd hu hd, hs.balanced.consume h⟩

theorem Balanced.finish {fate : SaveFate} (clock : Int) (hu : s.up)
    (h : Jail.save fate (Jail.tidy now s.jail s.world).1 (Jail.tidy now s.jail s.world).2 = (jail, world))
    (hs : s.Balanced env t n m) : { s with clock, jail, world }.Balanced env t n m := by
  have hv := Jail.save_view fate (Jail.tidy now s.jail s.world).1 (Jail.tidy now s.jail s.world).2
  rw [h] at hv
  obtain ⟨hl, hb⟩ := Prod.mk.inj hv
  have ht := hs.balanced.tidy now (Int.le_of_lt (hs.wellformed hu).1.expiretime)
  exact ⟨hs.wellformed.finish clock h, fun hd => absurd hu hd, hl ▸ hb ▸ ht⟩

omit [Backend β] in
theorem Balanced.backend {b : Traced β} (hb : b.calls = s.world.backend.calls) (hs : s.Balanced env t n m) :
    { s with world.backend := b }.Balanced env t n m := by
  have ⟨hl, hg⟩ := hs.balanced
  refine ⟨hs.wellformed, hs.down, ?_, ?_⟩
  all_goals
    simp only [blocks, releases, hb]
    assumption

end Pass

theorem Balanced.step {n m : Nat} (h : s.Step env op s') (hs : s.Balanced env t n m) :
    s'.Balanced env t (n + if bansBy t op then 1 else 0) (m + if releasesBy t op then 1 else 0) := by
  refine ⟨hs.wellformed.step h, ?_, ?_⟩
  case refine_1 =>
    intro hd
    obtain ⟨_, _, _, st⟩ | ⟨_, _, st⟩ | st := h.cases
    case inl     => exact absurd st.up hd
    case inr.inl => exact st.ipaddrs
    case inr.inr => exact absurd st.up' hd
  case refine_2 =>
    obtain ⟨hle, hge⟩ := hs.balanced
    cases op
    case start params now =>
      have st := start_eq h
      have hl : Jail.bannedAs t s.jail.ipaddrs = 0 := by
        rw [hs.down (by simp [st.down])]
        rfl
      obtain ⟨h₁, h₂⟩ := Jail.blocks_blockAll t s'.jail.ipaddrs s.world.backend
      rw [st.backend]
      exact ⟨by simp only [bansBy]; omega, by simp only [releasesBy]; omega⟩
    case stop =>
      have st := stop_eq h
      obtain ⟨h₁, h₂⟩ := Jail.blocks_unbans t (s.jail.ipaddrs.filter (·.banned)) s.world.backend
      have hl : (s.jail.ipaddrs.filter (·.banned)).countP (·.text = t) = Jail.bannedAs t s.jail.ipaddrs := by
        rw [List.countP_filter, Jail.bannedAs]
        exact List.countP_congr fun a _ => by simp [Jail.Bans, and_comm]
      have h0 : Jail.bannedAs t [] = 0 := rfl
      have hu : Jail.Balanced t n m [] (Jail.unblockAll s.jail.ipaddrs s.world.backend) :=
        ⟨by rw [Jail.unblockAll]; omega, by rw [Jail.unblockAll]; omega⟩
      rw [st.backend (hs.wellformed st.up).1.hasBackend, st.ipaddrs]
      -- The call of `stop` is for no address.
      exact ⟨hu.le, hu.ge⟩
    case process =>
      obtain ⟨hu, _, _, hp⟩ := process_eq h
      exact hs.balanced.process hp (Int.le_of_lt (hs.wellformed hu).1.expiretime)
    case ip now op ip =>
      obtain ⟨hu, _, _, _, hp⟩ := ip_eq h
      have hb := hs.balanced.cmdIp hp (hs.wellformed hu).2
      simpa only [bansBy, releasesBy, decide_eq_true_eq] using hb
    case set =>
      obtain ⟨_, _, _, hw, _, hj, _⟩ := set_eq h
      exact hj ▸ hw ▸ hs.balanced

-- In every run an address has been blocked as often as it has been released and is banned now, but for the
-- commands: one that bans a host which is banned already, and one that releases a host which is not banned.
theorem balanced {name : CString} {world : World (Traced β)} (hw : world.backend.calls = [])
    (e : Transition.Steps (Step env) (.new name world) ops s) (t : CString) :
    blocks t s.world.backend ≤
      Jail.bannedAs t s.jail.ipaddrs + releases t s.world.backend + ops.countP (bansBy t) ∧
    Jail.bannedAs t s.jail.ipaddrs + releases t s.world.backend ≤
      blocks t s.world.backend + ops.countP (releasesBy t) := by
  have h₀ : (System.new name world).Balanced env t ([].countP (bansBy t)) ([].countP (releasesBy t)) := by
    refine ⟨nofun, fun _ => rfl, ?_, ?_⟩ <;> simp [System.new, Jail.create, blocks, releases, hw, Jail.bannedAs]
  have hs := e.history (P := fun ops s => s.Balanced env t (ops.countP (bansBy t)) (ops.countP (releasesBy t)))
    (fun ops s op s' h hs => by simpa only [List.countP_append, List.countP_singleton] using hs.step h) h₀
  exact ⟨hs.balanced.le, hs.balanced.ge⟩

section Example

-- A host is banned for its lines, released with the time, banned again, and then once more by a command.
def balancedOps : List Op := [
  .start sshParams 1000,
  .process (fun line => .ok (some ⟨1, line, 1000⟩)) 1010 [(1, "192.0.2.7".toList)] .complete,
  .process (fun _ => .ok none) 5000 [] .complete,
  .process (fun line => .ok (some ⟨1, line, 1000⟩)) 5010 [(1, "192.0.2.7".toList)] .complete,
  .ip 5020 1 "192.0.2.7".toList]

def balancedNew : System (Traced Blocklist) :=
  .new "ssh".toList ⟨⟨⟨[], [], []⟩, []⟩, [], fun _ => none⟩

theorem balanced_again :
    ∃ s, Transition.replay (step quadEnv) balancedNew balancedOps = some s ∧
    blocks "192.0.2.7".toList s.world.backend = 3 ∧
    (blocks "192.0.2.7".toList s.world.backend ≤
      Jail.bannedAs "192.0.2.7".toList s.jail.ipaddrs + releases "192.0.2.7".toList s.world.backend +
        balancedOps.countP (bansBy "192.0.2.7".toList) ∧
    Jail.bannedAs "192.0.2.7".toList s.jail.ipaddrs + releases "192.0.2.7".toList s.world.backend ≤
      blocks "192.0.2.7".toList s.world.backend + balancedOps.countP (releasesBy "192.0.2.7".toList)) := by
  let s := (Transition.replay (step quadEnv) balancedNew balancedOps).get (by decide +kernel)
  have hs : Transition.replay (step quadEnv) balancedNew balancedOps = some s := (Option.some_get _).symm
  exact ⟨s, hs, by decide +kernel, balanced rfl (.of_replay hs) _⟩

end Example
end System
end F2b
