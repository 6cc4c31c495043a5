import F2b.Jail.Theorems.Lines
import F2b.Jail.Theorems.Pass
import Mathlib.Algebra.Order.Ring.Cast
import Mathlib.Algebra.Order.Ring.Rat

-- How long a ban lasts.

namespace F2b

namespace Jail

theorem truncate_eq_floor {q : Rat} (h : 0 ≤ q) : truncate q = q.floor := by
  rw [truncate, Rat.floor_def, Int.tdiv_eq_ediv_of_nonneg (Rat.num_nonneg.mpr h)]

theorem floor_lt_int_iff (q : Rat) : q.floor < 2 ^ 31 ↔ q < 2 ^ 31 := by
  rw [Rat.floor_lt_iff, Int.cast_pow, Int.cast_ofNat]

theorem castInt_of_lt {q : Rat} (h : 0 ≤ q) (hl : q < 2 ^ 31) : castInt q = q.floor := by
  have hg : 0 ≤ q.floor := Rat.le_floor_iff.mpr (by simpa using h)
  rw [castInt, truncate_eq_floor h, if_pos ⟨by omega, (floor_lt_int_iff q).mpr hl⟩]

theorem castInt_of_ge {q : Rat} (h : 0 ≤ q) (hl : ¬q < 2 ^ 31) : castInt q = -2 ^ 31 := by
  rw [castInt, truncate_eq_floor h, if_neg fun hc => hl ((floor_lt_int_iff q).mp hc.2)]

namespace Settings

variable {s : Settings}

def extension (s : Settings) (bancount : Nat) : Rat :=
  bancount * s.bantime * s.bantimeExtend

theorem extension_nonneg (hb : 0 ≤ s.bantime) (he : 0 ≤ s.bantimeExtend) (n : Nat) : 0 ≤ s.extension n :=
  mul_nonneg (mul_nonneg n.cast_nonneg (Int.cast_nonneg hb)) he

theorem extension_mono (hb : 0 ≤ s.bantime) (he : 0 ≤ s.bantimeExtend) {m n : Nat} (h : m ≤ n) :
    s.extension m ≤ s.extension n :=
  have hb : (0 : Rat) ≤ s.bantime := Int.cast_nonneg hb
  mul_le_mul_of_nonneg_right (mul_le_mul_of_nonneg_right (Nat.cast_le.mpr h) hb) he

theorem banLength_eq (he : 0 ≤ s.bantimeExtend) (n : Nat) :
    s.banLength n = s.bantime + castInt (s.extension n) := by
  rw [banLength, extension, ← mul_assoc]
  split
  case isTrue    => rfl
  case isFalse h =>
    have h0 : s.bantimeExtend = 0 := le_antisymm (not_lt.mp h) he
    simp [h0, castInt, truncate]

end Settings

section Ban

variable {β : Type} [Backend β]

-- A ban whose length is `bantime` and the integer part of its extension.
structure FullLength (jail : Jail) (addr : Ipaddr) (w : World β) : Prop where
  exact : (jail.ban addr w).2.2.1.releaseAt - (jail.ban addr w).2.2.1.bannedAt =
    jail.settings.bantime + (jail.settings.extension addr.bancount).floor
  least : jail.settings.bantime ≤ (jail.ban addr w).2.2.1.releaseAt - (jail.ban addr w).2.2.1.bannedAt
  mono  : ∀ n ≤ addr.bancount, jail.settings.banLength n ≤
    (jail.ban addr w).2.2.1.releaseAt - (jail.ban addr w).2.2.1.bannedAt
  later : (jail.ban addr w).2.2.1.bannedAt < (jail.ban addr w).2.2.1.releaseAt

theorem length_ban (jail : Jail) (addr : Ipaddr) (w : World β) :
    (jail.ban addr w).2.2.1.releaseAt - (jail.ban addr w).2.2.1.bannedAt =
    jail.settings.banLength addr.bancount := by
  have ⟨_, _, h, _⟩ := ban_eq jail addr w
  rw [h]
  simp only [banned]
  omega

-- A ban has its full length if and only if the extension fits an `int`.
theorem fullLength_iff {jail : Jail} (hb : 0 < jail.settings.bantime) (he : 0 ≤ jail.settings.bantimeExtend)
    (addr : Ipaddr) (w : World β) :
    FullLength jail addr w ↔ jail.settings.extension addr.bancount < 2 ^ 31 := by
  have hx (n : Nat) : 0 ≤ jail.settings.extension n := Settings.extension_nonneg (Int.le_of_lt hb) he n
  have hl := (length_ban jail addr w).trans (Settings.banLength_eq he addr.bancount)
  constructor
  case mp =>
    intro h
    by_contra hn
    have := h.least
    rw [hl, castInt_of_ge (hx _) hn] at this
    omega
  case mpr =>
    intro h
    have hg (n : Nat) : 0 ≤ (jail.settings.extension n).floor := Rat.le_floor_iff.mpr (by simpa using hx n)
    rw [castInt_of_lt (hx _) h] at hl
    have hn := hg addr.bancount
    refine ⟨hl, by omega, fun n hm => ?_, by omega⟩
    have hle := Settings.extension_mono (Int.le_of_lt hb) he hm
    have hf := Rat.floor_monotone hle
    rw [hl, Settings.banLength_eq he, castInt_of_lt (hx n) (lt_of_le_of_lt hle h)]
    omega

end Ban

section Held

-- The record of the address holds it banned since `since`, and not to be released before `least`.
def HeldBanned (l : List Ipaddr) (ip : CString) (since least : Int) : Prop :=
  ∃ a, (Addrlist.lookup l ip).map (·.here) = some a ∧ a.banned ∧ a.bannedAt = since ∧ least ≤ a.releaseAt

variable {inet : Inet} {ip : CString} {since least now : Int}

theorem HeldBanned.set {p : Place Ipaddr} {a : Ipaddr} (h : HeldBanned p.list ip since least)
    (hl : Addrlist.lookup p.list p.here.text = some p) (hs : p.here.text.length < IPADDR_MAX)
    (ht : a.text = p.here.text)
    (hk : p.here.banned → a.banned ∧ a.bannedAt = p.here.bannedAt ∧ a.releaseAt = p.here.releaseAt) :
    HeldBanned (p.set a).list ip since least := by
  by_cases hq : CString.strncmpEq p.here.text ip IPADDR_MAX
  case pos =>
    obtain rfl : p.here.text = ip := CString.eq_of_strncmpEq hq hs
    have ⟨b, hb, hb₁, hb₂, hb₃⟩ := h
    obtain rfl : p.here = b := by simpa [hl] using hb
    have ⟨hk₁, hk₂, hk₃⟩ := hk hb₁
    have hf : Addrlist.lookup (p.set a).list p.here.text = some (p.set a) := Place.find?_set hl (ht ▸ hq)
    exact ⟨a, by rw [hf]; rfl, hk₁, hk₂.trans hb₂, hk₃ ▸ hb₃⟩
  case neg =>
    have ⟨b, hb, hr⟩ := h
    exact ⟨b, (Place.find?_set_of_not hq (ht ▸ hq)).trans hb, hr⟩

variable {β : Type} [Backend β] {jail jail' : Jail} {w w' : World β} {filter : Filter}

-- The record that a line belongs to is the first one of its address, and a new one is not of the address.
theorem HeldBanned.track {text : CString} {p : Place Ipaddr} (h : HeldBanned jail.ipaddrs ip since least)
    (hv : AllValid inet jail.ipaddrs) (hp : track inet jail.ipaddrs text = .ok p) :
    HeldBanned p.list ip since least ∧ Addrlist.lookup p.list p.here.text = some p ∧
    p.here.text.length < IPADDR_MAX := by
  obtain hk | ⟨new, hn, ha, rfl⟩ := track_ok hp
  case inl =>
    have hl := Addrlist.lookup_list hk
    have ht := Addrlist.lookup_text hk hv.length_lt
    exact ⟨hl ▸ h, by rw [hl, ht, hk], hv.length_lt _ (hl ▸ p.here_mem)⟩
  case inr =>
    have ht := Ipaddr.text_create hn
    have hlen : new.text.length < IPADDR_MAX := ht ▸ (Ipaddr.valid_of_create hn).length_lt
    refine ⟨?_, by simp [Addrlist.lookup, Place.find?, Place.list, CString.strncmpEq_self], hlen⟩
    obtain ⟨b, hb, hr⟩ := h
    obtain ⟨q, hq, _⟩ := Option.map_eq_some_iff.mp hb
    have hne : ¬CString.strncmpEq new.text ip IPADDR_MAX := fun he => by
      have hi : new.text = ip := CString.eq_of_strncmpEq he hlen
      refine ha q.here (Addrlist.lookup_list hq ▸ q.here_mem) ?_
      exact (Addrlist.lookup_text hq hv.length_lt).trans (hi.symm.trans ht)
    refine ⟨b, ?_, hr⟩
    rw [Addrlist.lookup, Place.map_here_find?] at hb ⊢
    exact (List.find?_cons_of_neg (by simpa using hne)).trans hb

theorem HeldBanned.consume {stag : UInt32} {line : CString} (h : HeldBanned jail.ipaddrs ip since least)
    (hv : AllValid inet jail.ipaddrs) (hc : jail.consume inet filter now stag line w = .ok (jail', w')) :
    HeldBanned jail'.ipaddrs ip since least := by
  obtain ⟨_, he⟩ | ⟨hit, p, _, hp, he⟩ := consume_ok hc
  case inl => rwa [(Prod.mk.inj he).1]
  case inr =>
    have ⟨hh, hl, hs⟩ := h.track hv hp
    obtain ⟨a, ht, _, ⟨_, _, ho, _⟩ | ⟨_, _, hn, ho, _⟩⟩ := observe_eq jail p now stag hit w
    all_goals obtain ⟨rfl, _⟩ := Prod.mk.inj (he.trans ho)
    case inl => exact hh.set hl hs ht.text fun hb => ⟨ht.banned ▸ hb, ht.bannedAt, ht.releaseAt⟩
    case inr => exact hh.set hl hs ht.text fun hb => absurd (ht.banned ▸ hb) hn

theorem HeldBanned.gather {feed : List (UInt32 × CString)} (h : HeldBanned jail.ipaddrs ip since least)
    (hv : AllValid inet jail.ipaddrs) (hg : gather inet filter now feed jail w = .ok (jail', w')) :
    HeldBanned jail'.ipaddrs ip since least :=
  And.left <| gather_induction
    (P := fun j _ => HeldBanned j.ipaddrs ip since least ∧ AllValid inet j.ipaddrs)
    (fun _ hc ⟨hh, hv⟩ => ⟨hh.consume hv hc, (consume_moves hc).invariant (fun _ _ m => AllValid.move m) hv⟩)
    hg ⟨h, hv⟩

-- A search in what the maintenance leaves comes to a record that it leaves as it was.
theorem HeldBanned.maintain (h : HeldBanned jail.ipaddrs ip since least)
    (he : 0 ≤ jail.settings.expiretime) (hn : now ≤ least) :
    HeldBanned ((jail.ipaddrs.map (eased now)).filter (!jail.expired now ·)) ip since least := by
  have ⟨a, ha, hb, hs, hr⟩ := h
  refine ⟨a, ?_, hb, hs, hr⟩
  rw [Addrlist.lookup, Place.map_here_find?] at ha ⊢
  have ⟨hq, old, new, hl, ho⟩ := List.find?_eq_some_iff_append.mp ha
  have hx : jail.expired now a = false := by
    refine Bool.eq_false_iff.mpr fun hx => ?_
    have := le_of_expired hx
    omega
  have hd : eased now a = a := by simp [eased, Int.not_lt.mpr (Int.le_trans hn hr)]
  refine List.find?_eq_some_iff_append.mpr
    ⟨hq, (old.map (eased now)).filter (!jail.expired now ·), (new.map (eased now)).filter (!jail.expired now ·), ?_, ?_⟩
  · rw [hl, List.map_append, List.filter_append, List.map_cons, List.filter_cons, hd, hx]
    rfl
  · intro b hb
    obtain ⟨c, hc, rfl⟩ := List.mem_map.mp (List.mem_filter.mp hb).1
    rw [text_eased]
    exact ho c hc

theorem HeldBanned.process {feed : List (UInt32 × CString)} {fate : SaveFate}
    (h : HeldBanned jail.ipaddrs ip since least) (hv : AllValid inet jail.ipaddrs)
    (he : 0 ≤ jail.settings.expiretime) (hn : now ≤ least)
    (hp : process inet filter now feed fate jail w = .ok (jail', w')) :
    HeldBanned jail'.ipaddrs ip since least := by
  have ⟨jail₁, w₁, hg, hi⟩ := process_hosts hp
  rw [hi]
  exact (h.gather hv hg).maintain ((gather_frame hg).settings ▸ he) hn

section Command

def PassWithin (inet : Inet) (now least : Int) (x y : Jail × World β) : Prop :=
  ∃ filter t feed fate, now ≤ t ∧ t < least ∧ process inet filter t feed fate x.1 x.2 = .ok y

-- The address is held banned since `now`, and no passes within `bantime` release it.
def StaysBanned (inet : Inet) (ip : CString) (now : Int) (x : Jail × World β) : Prop :=
  ∀ y, Relation.ReflTransGen (PassWithin inet now (now + x.1.settings.bantime)) x y →
  HeldBanned y.1.ipaddrs ip now (now + x.1.settings.bantime)

theorem staysBanned_iff_held {x : Jail × World β} (hv : AllValid inet x.1.ipaddrs)
    (he : 0 ≤ x.1.settings.expiretime) :
    StaysBanned inet ip now x ↔ HeldBanned x.1.ipaddrs ip now (now + x.1.settings.bantime) := by
  constructor
  case mp  => exact fun h => h x .refl
  case mpr =>
    intro h y hy
    have hi : HeldBanned y.1.ipaddrs ip now (now + x.1.settings.bantime) ∧
        AllValid inet y.1.ipaddrs ∧ 0 ≤ y.1.settings.expiretime := by
      induction hy
      case refl            => exact ⟨h, hv, he⟩
      case tail hp hi =>
        have ⟨_, t, _, _, _, ht, hp⟩ := hp
        have ⟨hh, hv, he⟩ := hi
        refine ⟨hh.process hv he (Int.le_of_lt ht) hp, ?_, (process_settings hp) ▸ he⟩
        exact (process_moves he hp).invariant (fun _ _ m => AllValid.move m) hv
    exact hi.1

theorem cmdIp_ban (status : Ipaddr → CString) (ressize : Nat) (now : Int) (w : World β) {op : Int} (ho : 0 < op)
    (hb : jail.settings.flags.hasBackend) (hv : Ipaddr.Valid inet ip) :
    ∃ p, (Addrlist.lookup jail.ipaddrs ip = some p ∨
        (Addrlist.lookup jail.ipaddrs ip = none ∧ ∃ new, Ipaddr.create inet ip = some new ∧
          p = ⟨[], fresh now new, jail.ipaddrs⟩)) ∧
      (cmdIp inet status ressize op now ip jail w).2.1.ipaddrs =
        (p.set (banned jail.settings p.here)).list := by
  have ⟨new, hn⟩ := hv.exists_create
  have hw (jail₁ : Jail) (hs : jail₁.settings = jail.settings) (p : Place Ipaddr) :
      (operate status ressize op jail₁ p w).2.1.ipaddrs = (p.set (banned jail.settings p.here)).list := by
    obtain ⟨_, ⟨_, _⟩ | ⟨_, _, he, _⟩ | ⟨_, _⟩⟩ := operate_eq status ressize op jail₁ p w
    case inl     => omega
    case inr.inl => rw [he, hs]
    case inr.inr => omega
  cases hl : Addrlist.lookup jail.ipaddrs ip
  case some p =>
    refine ⟨p, .inl rfl, ?_⟩
    simp only [cmdIp, hb, hl, Bool.not_true, Bool.false_and, Bool.false_eq_true, if_false]
    exact hw jail rfl p
  case none   =>
    refine ⟨_, .inr ⟨rfl, new, hn, rfl⟩, ?_⟩
    simp only [cmdIp, hb, hl, hn, gt_iff_lt, ho, Bool.not_true, Bool.false_and, Bool.false_eq_true, if_true, if_false]
    apply hw
    rfl

theorem bantime_le_banLength_iff {s : Settings} (hb : 0 < s.bantime) (n : Nat) :
    s.bantime ≤ s.banLength n ↔ s.extension n < 2 ^ 31 := by
  by_cases he : 0 ≤ s.bantimeExtend
  case pos =>
    have hx := Settings.extension_nonneg (Int.le_of_lt hb) he n
    rw [Settings.banLength_eq he]
    by_cases hl : s.extension n < 2 ^ 31
    case pos =>
      have : 0 ≤ (s.extension n).floor := Rat.le_floor_iff.mpr (by simpa using hx)
      simp only [castInt_of_lt hx hl, hl, iff_true]
      omega
    case neg =>
      simp only [castInt_of_ge hx hl, hl, iff_false]
      omega
  case neg =>
    have hc : (0 : Rat) ≤ n * s.bantime := mul_nonneg n.cast_nonneg (Int.cast_nonneg (Int.le_of_lt hb))
    have hx : s.extension n ≤ 0 := mul_nonpos_of_nonneg_of_nonpos hc (le_of_not_ge he)
    have hl : s.banLength n = s.bantime := if_neg fun h => he (le_of_lt h)
    simp only [hl, Int.le_refl, true_iff]
    exact lt_of_le_of_lt hx (by decide)

theorem heldBanned_ban_iff {s : Settings} {p : Place Ipaddr} (hb : 0 < s.bantime)
    (h : Addrlist.lookup p.list ip = some p) :
    HeldBanned (p.set (banned s p.here)).list ip now (now + s.bantime) ↔
    p.here.lastseen = now ∧ s.extension p.here.bancount < 2 ^ 31 := by
  have hq : CString.strncmpEq p.here.text ip IPADDR_MAX := Place.find?_here h
  have hf : Addrlist.lookup (p.set (banned s p.here)).list ip = some (p.set (banned s p.here)) :=
    Place.find?_set h hq
  rw [HeldBanned, hf, ← bantime_le_banLength_iff hb]
  simp only [Option.map_some, Place.here_set, Option.some.injEq, exists_eq_left', banned, true_and]
  refine and_congr_right fun he => ?_
  omega

end Command
end Held
end Jail

namespace System

variable {β : Type} [Backend β] {env : Env} {s : System β} {ip : CString}

-- Whatever its history, a host is banned for long enough if and only if it is new to the jail, or was last
-- seen just now and has been banned seldom enough. The answer of the backend is of no account.
theorem staysBanned_iff (h : Transition.Reachable (fun s : System β => s.up = false) (Step env) s) (hu : s.up)
    (hv : Ipaddr.Valid env.inet ip) (now : Int) {op : Int} (ho : 0 < op) :
    Jail.StaysBanned env.inet ip now
      (s.jail.cmdIp env.inet env.status env.ressize op now ip s.world).2 ↔
    ∀ p, Addrlist.lookup s.jail.ipaddrs ip = some p →
      p.here.lastseen = now ∧ s.jail.settings.extension p.here.bancount < 2 ^ 31 := by
  have ⟨hr, ha⟩ := wellformed_of_reachable h hu
  have hs := Jail.cmdIp_settings env.inet env.status env.ressize op now ip s.jail s.world
  have hm := Jail.cmdIp_moves (show s.jail.cmdIp env.inet env.status env.ressize op now ip s.world = _ from rfl)
  have hm := hm.invariant (fun _ _ m => Jail.AllValid.move m) ha
  have ⟨p, hp, he⟩ := Jail.cmdIp_ban env.status env.ressize now s.world ho hr.hasBackend hv
  have hf : Addrlist.lookup p.list ip = some p := by
    obtain hl | ⟨_, new, hn, rfl⟩ := hp
    case inl => exact (Addrlist.lookup_list hl).symm ▸ hl
    case inr =>
      have ht : new.text = ip := Ipaddr.text_create hn
      simp [Addrlist.lookup, Place.find?, Place.list, Jail.fresh, ht, CString.strncmpEq_self]
  rw [Jail.staysBanned_iff_held hm (hs ▸ Int.le_of_lt hr.expiretime), hs, he, Jail.heldBanned_ban_iff hr.bantime hf]
  obtain hl | ⟨hl, new, hn, rfl⟩ := hp
  case inl => simp [hl]
  case inr =>
    obtain ⟨_, _, rfl⟩ := Ipaddr.create_eq hn
    simp [hl, Jail.fresh, Jail.Settings.extension]

section Example

-- A jail whose bans get longer by half an hour each time.
def halfEnv : Env :=
  { quadEnv with atof := fun _ => 1 / 2 }

def halfParams : List Config.Param :=
  sshParams ++ [⟨"bantime".toList, "3600".toList⟩, ⟨"bantime_extend".toList, "0.5".toList⟩]

def bannedOnce : System Blocklist :=
  (Transition.replay (step halfEnv) (.new "ssh".toList ⟨⟨[], [], []⟩, [], fun _ => none⟩)
    [.start halfParams 1000, .ip 1001 1 "192.0.2.7".toList]).get (by decide +kernel)

theorem fullLength_second :
    ∃ a ∈ bannedOnce.jail.ipaddrs, a.bancount = 1 ∧ bannedOnce.jail.settings.banLength a.bancount = 5400 ∧
    Jail.FullLength bannedOnce.jail a bannedOnce.world := by
  have ⟨a, ha, hb, hl, hx⟩ : ∃ a ∈ bannedOnce.jail.ipaddrs, a.bancount = 1 ∧
      bannedOnce.jail.settings.banLength a.bancount = 5400 ∧
      bannedOnce.jail.settings.extension a.bancount < 2 ^ 31 := by
    decide +kernel
  exact ⟨a, ha, hb, hl, (Jail.fullLength_iff (by decide +kernel) (by decide +kernel) a _).mpr hx⟩

-- A jail with the longest `bantime` there is, and a `bantime_extend` of one.
def longEnv : Env :=
  { quadEnv with atof := fun _ => 1 }

def longParams : List Config.Param :=
  sshParams ++ [⟨"bantime".toList, "2147483647".toList⟩, ⟨"bantime_extend".toList, "1.0".toList⟩]

def bannedTwice : System Blocklist :=
  (Transition.replay (step longEnv) (.new "ssh".toList ⟨⟨[], [], []⟩, [], fun _ => none⟩)
    [.start longParams 1000, .ip 1001 1 "192.0.2.7".toList, .ip 1001 1 "192.0.2.7".toList]).get (by decide +kernel)

-- The third ban of the host is over before it begins.
theorem not_fullLength_third :
    bannedTwice.jail.settings.bantime < 2 ^ 31 ∧ bannedTwice.jail.settings.bantimeExtend ≤ 1 ∧
    ∃ a ∈ bannedTwice.jail.ipaddrs, a.bancount = 2 ∧
      ¬Jail.FullLength bannedTwice.jail a bannedTwice.world := by
  have ⟨a, ha, hb, hx⟩ : ∃ a ∈ bannedTwice.jail.ipaddrs, a.bancount = 2 ∧
      bannedTwice.jail.settings.banLength a.bancount = -1 := by
    decide +kernel
  refine ⟨by decide +kernel, by decide +kernel, a, ha, hb, fun h => ?_⟩
  have hl := h.later
  have he := Jail.length_ban bannedTwice.jail a bannedTwice.world
  omega

def seenOnce : System Blocklist :=
  (Jail.sshStarted.step quadEnv
    (.process Jail.sshFilter 1001 [(7, "from 192.0.2.7".toList)] .complete)).get (by decide +kernel)

theorem seenOnce_reachable :
    Transition.Reachable (fun s : System Blocklist => s.up = false) (Step quadEnv) seenOnce := by
  have ⟨s₀, ops, h₀, e⟩ := Jail.sshStarted_reachable
  exact ⟨s₀, _, h₀, e.append (.step (Option.some_get _).symm .refl)⟩

theorem staysBanned_at_once :
    Jail.StaysBanned .quad "192.0.2.7".toList 1001
      (seenOnce.jail.cmdIp .quad quadEnv.status 4096 1 1001 "192.0.2.7".toList seenOnce.world).2 :=
  (staysBanned_iff seenOnce_reachable (by decide +kernel) (by decide) 1001 (by decide)).mpr <|
    show ∀ p ∈ Addrlist.lookup seenOnce.jail.ipaddrs "192.0.2.7".toList, _ by decide +kernel

-- Two hours later the ban of `bantime`, one hour, is counted from that line.
theorem not_staysBanned :
    (seenOnce.jail.cmdIp .quad quadEnv.status 4096 1 8201 "192.0.2.7".toList seenOnce.world).1 = "+ok\n".toList ∧
    ¬Jail.StaysBanned .quad "192.0.2.7".toList 8201
      (seenOnce.jail.cmdIp .quad quadEnv.status 4096 1 8201 "192.0.2.7".toList seenOnce.world).2 := by
  refine ⟨by decide +kernel, fun h => ?_⟩
  have ⟨a, ha, _, hb, _⟩ := h _ .refl
  have hn : ((Addrlist.lookup (seenOnce.jail.cmdIp .quad quadEnv.status 4096 1 8201 "192.0.2.7".toList
      seenOnce.world).2.1.ipaddrs "192.0.2.7".toList).map (·.here)).map (·.bannedAt) = some 1001 := by
    decide +kernel
  rw [ha, Option.map_some, hb] at hn
  exact absurd hn (by decide)

end Example
end System
end F2b
