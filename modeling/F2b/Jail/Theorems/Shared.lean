import F2b.Jail.Theorems.Blocking
import F2b.Jail.Theorems.Pass

-- Several jails whose backends act on one set of blocked addresses.

namespace F2b

structure Shared (ι : Type) where
  jails : ι → Jail
  world : World Blocklist

namespace Shared

variable {ι : Type} [DecidableEq ι] (env : Env)

-- The jail `i` as a system of its own.
def single (s : Shared ι) (i : ι) : System Blocklist where
  up    := true
  clock := 0
  jail  := s.jails i
  world := s.world

-- The passes and commands of running jails.
def step (s : Shared ι) : ι × Op → Option (Shared ι)
  | (_, .start ..) => none
  | (_, .stop _)   => none
  | (i, op)        =>
    ((s.single i).step env op).map fun t => ⟨Function.update s.jails i t.jail, t.world⟩

def Step (s : Shared ι) (l : ι × Op) (s' : Shared ι) : Prop :=
  s.step env l = some s'

-- The jails are up and hold distinct addresses, what they hold banned is blocked, and all calls of
-- the backend succeed.
structure Started (s : Shared ι) : Prop where
  running : ∀ i, (s.jails i).settings.Running
  nodup   : ∀ i, (Addrlist.texts (s.jails i).ipaddrs).Nodup
  blocked : ∀ i ip, Jail.Holds (s.jails i).ipaddrs ip → ip ∈ s.world.backend.blocked
  answers : s.world.backend.answers = []
  calls   : s.world.backend.calls = []

-- The step releases no address that another jail holds banned.
def ReleasesOwn (s : Shared ι) (l : ι × Op) : Prop :=
  ∀ s' ∈ s.step env l, ∀ c ∈ s'.world.backend.calls.drop s.world.backend.calls.length,
    c.kind = .unban → ∀ j ≠ l.1, ¬Jail.Holds (s.jails j).ipaddrs c.ip

instance (s : Shared Bool) (l : Bool × Op) : Decidable (s.ReleasesOwn env l) :=
  inferInstanceAs (Decidable (∀ s' ∈ s.step env l, ∀ c ∈ s'.world.backend.calls.drop s.world.backend.calls.length,
    c.kind = .unban → ∀ j ≠ l.1, ¬Jail.Holds (s.jails j).ipaddrs c.ip))

-- The addresses that a step asks the backend to unban: those whose bans are over in a pass, and the one that an
-- 'ip release' finds. A ban that the pass itself begins is over at once if its length is negative.
def Releases (env : Env) (s : Shared ι) : ι × Op → CString → Prop
  | (i, .process filter now feed _), t =>
    (∃ a ∈ (s.jails i).ipaddrs, Jail.due now a ∧ a.text = t) ∨
    (¬Jail.Holds (s.jails i).ipaddrs t ∧ ∃ jail w, Jail.gather env.inet filter now feed (s.jails i) s.world =
      .ok (jail, w) ∧ ∃ a ∈ jail.ipaddrs, Jail.due now a ∧ a.text = t)
  | (i, .ip _ op ip), t =>
    op < 0 ∧ ∃ p, Addrlist.lookup (s.jails i).ipaddrs ip = some p ∧ p.here.text = t
  | _, _ => False

end Shared

namespace Jail

variable {inet : Inet} {x y : List Ipaddr × Blocklist} {ip : CString}

structure Reliable (b : Blocklist) : Prop where
  answers  : b.answers = []
  harmless : b.AllHarmless

theorem Reliable.act {kind : Blocklist.Kind} {write : List CString → List CString} {b : Blocklist}
    (h : Reliable b) : Reliable (Blocklist.act kind ip write b).2 where
  answers  := by simp [Blocklist.act, h.answers]
  harmless := by
    intro c hc
    rw [Blocklist.calls_act, List.mem_append, List.mem_singleton] at hc
    obtain hc | rfl := hc
    · exact h.harmless c hc
    · exact .inl (by simp [Blocklist.answer, h.answers])

theorem Reliable.block {b : Blocklist} (h : Reliable b) (ip : CString) : Reliable (Backend.block ip b) := by
  by_cases hk : ip ∈ b.blocked
  case pos => exact (Blocklist.block_of_mem hk).symm ▸ h
  case neg => exact (Blocklist.block_of_not_mem hk).symm ▸ h.act

theorem Reliable.blockAll {b : Blocklist} (h : Reliable b) (as : List Ipaddr) : Reliable (blockAll as b) :=
  List.foldlRecOn _ _ h fun _ hb a _ => hb.block a.text

theorem Reliable.unblockAll {b : Blocklist} (h : Reliable b) (as : List Ipaddr) : Reliable (unblockAll as b) :=
  List.foldlRecOn _ _ h fun _ hb _ _ => hb.act

theorem Move.reliable (m : Move inet x y) (h : Reliable x.2) : Reliable y.2 := by
  cases m
  case ban   => exact h.block _
  case unban => exact h.act
  all_goals exact h

structure Covered (x : List Ipaddr × Blocklist) : Prop where
  nodup    : (Addrlist.texts x.1).Nodup
  reliable : Reliable x.2
  blocked  : ∀ ip, Holds x.1 ip → ip ∈ x.2.blocked

theorem Covered.move (m : Move inet x y) (h : Covered x) : Covered y := by
  refine ⟨m.nodup h.nodup, m.reliable h.reliable, fun ip => ?_⟩
  have hr := (m.reliable h.reliable).harmless
  have hb := h.blocked
  have hn := h.nodup
  cases m
  case ping           => exact hb ip
  case create hc _    => simpa [Holds, Ipaddr.banned_create hc] using hb ip
  case touch a ht     =>
    have hb := hb ip
    rw [holds_place_iff] at hb ⊢
    simpa [ht.text, ht.banned] using hb
  case ban s _        =>
    rw [Blocklist.mem_block_iff hr, holds_place_iff]
    rintro (⟨_, rfl⟩ | ho)
    exacts [.inl rfl, .inr (hb ip (holds_place_iff.mpr (.inr ho)))]
  case unban          =>
    rw [Blocklist.mem_unban_iff hr, holds_place_iff]
    rintro (⟨h, _⟩ | ho)
    · simp [released] at h
    · exact ⟨by rintro rfl; exact not_holds_others hn ho, hb ip (holds_place_iff.mpr (.inr ho))⟩
  case forget         => exact fun ho => hb ip (holds_place_iff.mpr (.inr ho))

-- A jail keeps the addresses of a set `t` blocked unless it releases one of them.
def Keeps (t : CString → Prop) (b b' : Blocklist) : Prop :=
  ∃ new, b'.calls = b.calls ++ new ∧
  ((∀ c ∈ new, c.kind = .unban → ¬t c.ip) → (∀ ip, t ip → ip ∈ b.blocked) →
    ∀ ip, t ip → ip ∈ b'.blocked)

variable {t : CString → Prop} {b b₁ b₂ b₃ : Blocklist}

theorem Keeps.refl (t : CString → Prop) (b : Blocklist) : Keeps t b b :=
  ⟨[], by simp, fun _ h => h⟩

theorem Keeps.trans (h₁ : Keeps t b₁ b₂) (h₂ : Keeps t b₂ b₃) : Keeps t b₁ b₃ := by
  have ⟨new₁, hc₁, hk₁⟩ := h₁
  have ⟨new₂, hc₂, hk₂⟩ := h₂
  refine ⟨new₁ ++ new₂, by simp [hc₁, hc₂], fun hn hb => ?_⟩
  have ⟨hn₁, hn₂⟩ := List.forall_mem_append.mp hn
  exact hk₂ hn₂ (hk₁ hn₁ hb)

theorem Keeps.block (ip : CString) (b : Blocklist) : Keeps t b (Backend.block ip b) := by
  by_cases hk : ip ∈ b.blocked
  case pos => exact (Blocklist.block_of_mem hk).symm ▸ .refl t b
  case neg =>
    rw [Blocklist.block_of_not_mem hk]
    refine ⟨_, Blocklist.calls_act, fun _ hb ip ht => ?_⟩
    cases ho : b.answer <;> simp [Blocklist.act, ho, hb ip ht]

theorem Keeps.unban (ip : CString) (b : Blocklist) : Keeps t b (Backend.unban ip b).2 := by
  refine ⟨_, Blocklist.calls_act, fun hn hb ip' ht => ?_⟩
  have hne : ip' ≠ ip := by
    rintro rfl
    exact hn _ List.mem_cons_self rfl ht
  cases ho : b.answer <;> simp [Backend.unban, Blocklist.act, ho, hb ip' ht, hne]

theorem Moves.keeps (m : Moves inet x y) : Keeps t x.2 y.2 := by
  induction m
  case refl => exact .refl ..
  case tail m hi =>
    refine hi.trans ?_
    cases m
    case ban   => exact .block ..
    case unban => exact .unban ..
    all_goals exact .refl ..

section Asks

variable {β : Type} [Backend β] {l : List Ipaddr} {p : Place Ipaddr} {a : Ipaddr} {r : Int}

-- The list holds a ban of the address with this end.
def Ends (l : List Ipaddr) (ip : CString) (r : Int) : Prop :=
  ∃ a ∈ l, a.banned ∧ a.text = ip ∧ a.releaseAt = r

theorem holds_iff_ends : Holds l ip ↔ ∃ r, Ends l ip r :=
  ⟨fun ⟨a, ha, hb, ht⟩ => ⟨_, a, ha, hb, ht, rfl⟩, fun ⟨_, a, ha, hb, ht, _⟩ => ⟨a, ha, hb, ht⟩⟩

theorem due_iff_ends {now : Int} : (∃ a ∈ l, due now a ∧ a.text = ip) ↔ ∃ r < now, Ends l ip r := by
  simp only [due, Bool.and_eq_true, decide_eq_true_eq]
  constructor
  case mp  => rintro ⟨a, ha, ⟨hb, hd⟩, ht⟩; exact ⟨a.releaseAt, hd, a, ha, hb, ht, rfl⟩
  case mpr => rintro ⟨_, hd, a, ha, hb, ht, rfl⟩; exact ⟨a, ha, ⟨hb, hd⟩, ht⟩

theorem ends_place_iff : Ends p.list ip r ↔
    (p.here.banned ∧ p.here.text = ip ∧ p.here.releaseAt = r) ∨ Ends (p.before ++ p.after) ip r :=
  p.exists_mem_iff

-- A ban that there is keeps its end when lines are read.
theorem ends_consume {jail jail' : Jail} {w w' : World β} {filter : Filter} {now : Int} {stag : UInt32}
    {line : CString} (hn : (Addrlist.texts jail.ipaddrs).Nodup) (hh : Holds jail.ipaddrs ip)
    (h : jail.consume inet filter now stag line w = .ok (jail', w')) :
    Ends jail'.ipaddrs ip r ↔ Ends jail.ipaddrs ip r := by
  obtain ⟨_, he⟩ | ⟨hit, p, _, hp, he⟩ := consume_ok h
  case inl => rw [(Prod.mk.inj he).1]
  case inr =>
    have ⟨hn, hl⟩ : (Addrlist.texts p.list).Nodup ∧
        ∀ r, Ends p.list ip r ↔ Ends jail.ipaddrs ip r := by
      obtain hk | ⟨new, hw, hne, rfl⟩ := track_ok hp
      case inl => rw [Addrlist.lookup_list hk]; exact ⟨hn, fun _ => .rfl⟩
      case inr =>
        have hm : new.text ∉ Addrlist.texts jail.ipaddrs := fun hm =>
          have ⟨a, ha, ht⟩ := Addrlist.mem_texts_iff.mp hm
          hne a ha (ht.trans (Ipaddr.text_create hw))
        refine ⟨List.nodup_cons.mpr ⟨hm, hn⟩, fun r => ?_⟩
        rw [ends_place_iff, Ipaddr.banned_create hw]
        exact or_iff_right fun h => Bool.false_ne_true h.1
    have hhp : Holds p.list ip := by
      obtain ⟨e, he⟩ := holds_iff_ends.mp hh
      exact holds_iff_ends.mpr ⟨e, (hl e).mpr he⟩
    obtain ⟨a, ht, _, ⟨_, _, ho, _⟩ | ⟨_, _, hb, ho, _⟩⟩ := observe_eq jail p now stag hit w
    all_goals
      obtain ⟨rfl, _⟩ := Prod.mk.inj (he.trans ho)
      rw [← hl, ends_place_iff, ends_place_iff]
    case inl => simp [ht.banned, ht.text, ht.releaseAt]
    case inr =>
      -- The address is not the one that is banned, since this one was not held.
      have hne : p.here.text ≠ ip := by
        rintro rfl
        obtain ⟨hp, _⟩ | ho := holds_place_iff.mp hhp
        · exact hb (ht.banned ▸ hp)
        · exact not_holds_others hn ho
      have hne' : (banned jail.settings a).text ≠ ip := fun he => hne (ht.text.symm.trans he)
      simp [hne, hne']

theorem ends_gather {jail jail' : Jail} {w w' : World β} {filter : Filter} {now : Int}
    {feed : List (UInt32 × CString)} (hn : (Addrlist.texts jail.ipaddrs).Nodup) (hh : Holds jail.ipaddrs ip)
    (h : gather inet filter now feed jail w = .ok (jail', w')) :
    ∀ r, Ends jail'.ipaddrs ip r ↔ Ends jail.ipaddrs ip r := by
  have hi : (Addrlist.texts jail'.ipaddrs).Nodup ∧ ∀ r, Ends jail'.ipaddrs ip r ↔ Ends jail.ipaddrs ip r := by
    refine gather_induction (P := fun j _ => (Addrlist.texts j.ipaddrs).Nodup ∧
      ∀ r, Ends j.ipaddrs ip r ↔ Ends jail.ipaddrs ip r) ?_ h ⟨hn, fun _ => .rfl⟩
    intro _ _ j v j' v' _ hc ⟨hn, he⟩
    have hh : Holds j.ipaddrs ip := by
      obtain ⟨e, hb⟩ := holds_iff_ends.mp hh
      exact holds_iff_ends.mpr ⟨e, (he e).mpr hb⟩
    have hn' := (consume_moves hc).invariant (P := fun x => (Addrlist.texts x.1).Nodup) (fun _ _ m => m.nodup) hn
    exact ⟨hn', fun e => (ends_consume hn hh hc).trans (he e)⟩
  exact hi.2

-- The backend has been asked to unban the addresses of a set, and no others.
def Asks (u : CString → Prop) (b b' : Blocklist) : Prop :=
  ∃ new, b'.calls = b.calls ++ new ∧ ∀ t, (∃ c ∈ new, c.kind = .unban ∧ c.ip = t) ↔ u t

variable {u u' : CString → Prop} {b b₁ b₂ b₃ : Blocklist}

theorem Asks.refl (b : Blocklist) : Asks (fun _ => False) b b :=
  ⟨[], by simp, by simp⟩

theorem Asks.trans (h₁ : Asks u b₁ b₂) (h₂ : Asks u' b₂ b₃) : Asks (fun t => u t ∨ u' t) b₁ b₃ := by
  have ⟨new₁, hc₁, hu₁⟩ := h₁
  have ⟨new₂, hc₂, hu₂⟩ := h₂
  refine ⟨new₁ ++ new₂, by simp [hc₁, hc₂], fun t => ?_⟩
  simp only [← hu₁, ← hu₂, List.mem_append, or_and_right, exists_or]

theorem Asks.of_iff (h : Asks u b₁ b₂) (hu : ∀ t, u t ↔ u' t) : Asks u' b₁ b₂ :=
  have ⟨new, hc, ht⟩ := h
  ⟨new, hc, fun t => (ht t).trans (hu t)⟩

theorem Asks.block (ip : CString) (b : Blocklist) : Asks (fun _ => False) b (Backend.block ip b) := by
  by_cases hk : ip ∈ b.blocked
  case pos => exact (Blocklist.block_of_mem hk).symm ▸ .refl b
  case neg =>
    rw [Blocklist.block_of_not_mem hk]
    exact ⟨_, Blocklist.calls_act, by simp⟩

theorem Asks.unban (ip : CString) (b : Blocklist) : Asks (ip = ·) b (Backend.unban ip b).2 :=
  ⟨_, Blocklist.calls_act, by simp⟩

theorem Asks.unbanEach (as : List Ipaddr) (b : Blocklist) :
    Asks (fun t => ∃ a ∈ as, a.text = t) b (as.foldl (fun b a => (Backend.unban a.text b).2) b) := by
  induction as generalizing b
  case nil          => exact (Asks.refl b).of_iff (by simp)
  case cons a as hi => exact ((Asks.unban a.text b).trans (hi _)).of_iff (by simp)

theorem Asks.releaseDue (now : Int) (as : List Ipaddr) (b : Blocklist) :
    Asks (fun t => ∃ a ∈ as, due now a ∧ a.text = t) b (releaseDue now as b) :=
  (Asks.unbanEach (as.filter (due now)) b).of_iff (by simp [and_assoc])

theorem Asks.gather {jail jail' : Jail} {w w' : World Blocklist} {filter : Filter} {now : Int}
    {feed : List (UInt32 × CString)} (h : Jail.gather inet filter now feed jail w = .ok (jail', w')) :
    Asks (fun _ => False) w.backend w'.backend := by
  refine gather_induction (P := fun _ v => Asks (fun _ => False) w.backend v.backend) ?_ h (.refl w.backend)
  intro stag _ j v j' v' _ hc ha
  obtain ⟨_, he⟩ | ⟨hit, p, _, _, he⟩ := consume_ok hc
  case inl => exact (Prod.mk.inj he).2 ▸ ha
  case inr =>
    obtain ⟨a, _, _, ⟨_, _, ho, hb, _⟩ | ⟨_, _, _, ho, hb, _⟩⟩ := observe_eq j p now stag hit v
    all_goals
      obtain ⟨_, rfl⟩ := Prod.mk.inj (he.trans ho)
      rw [hb]
    case inl => exact ha
    case inr => exact (ha.trans (.block a.text v.backend)).of_iff (by simp)

theorem Asks.process {jail jail' : Jail} {w w' : World Blocklist} {filter : Filter} {now : Int}
    {feed : List (UInt32 × CString)} {fate : SaveFate} (hn : (Addrlist.texts jail.ipaddrs).Nodup)
    (h : Jail.process inet filter now feed fate jail w = .ok (jail', w')) :
    Asks (fun t => (∃ a ∈ jail.ipaddrs, due now a ∧ a.text = t) ∨
      (¬Holds jail.ipaddrs t ∧ ∃ jail₁ w₁, Jail.gather inet filter now feed jail w = .ok (jail₁, w₁) ∧
        ∃ a ∈ jail₁.ipaddrs, due now a ∧ a.text = t)) w.backend w'.backend := by
  have ⟨jail₁, w₁, hg, hr⟩ := process_ok h
  have hb : w'.backend = Jail.releaseDue now jail₁.ipaddrs w₁.backend :=
    calc w'.backend = (tidy now jail₁ w₁).2.backend := (congrArg (·.2.backend) hr).trans
          (congrArg Prod.snd (save_view fate (tidy now jail₁ w₁).1 (tidy now jail₁ w₁).2))
      _ = _ := (maintain_eq jail₁ now jail₁.ipaddrs w₁).2
  rw [hb]
  refine ((Asks.gather hg).trans (.releaseDue now jail₁.ipaddrs w₁.backend)).of_iff fun t => ?_
  simp only [false_or, hg, Except.ok.injEq, Prod.mk.injEq]
  by_cases hh : Holds jail.ipaddrs t
  case pos =>
    have he := ends_gather hn hh hg
    simp only [due_iff_ends, he, hh, not_true_eq_false, false_and, or_false]
  case neg =>
    have hd : ¬∃ a ∈ jail.ipaddrs, due now a ∧ a.text = t := fun hd =>
      have ⟨e, _, he⟩ := due_iff_ends.mp hd
      hh (holds_iff_ends.mpr ⟨e, he⟩)
    simp [hd, hh]

theorem Asks.cmdIp {jail jail' : Jail} {w w' : World Blocklist} {status : Ipaddr → CString} {ressize : Nat}
    {op now : Int} {ip reply : CString} (hb : jail.settings.flags.hasBackend)
    (h : Jail.cmdIp inet status ressize op now ip jail w = (reply, jail', w')) :
    Asks (fun t => op < 0 ∧ ∃ p, Addrlist.lookup jail.ipaddrs ip = some p ∧ p.here.text = t)
      w.backend w'.backend := by
  have ho (jail : Jail) (p : Place Ipaddr) : Asks (fun t => op < 0 ∧ p.here.text = t) w.backend
      (operate status ressize op jail p w).2.2.backend := by
    obtain ⟨_, ⟨h0, he⟩ | ⟨hp, _, he, hw, _⟩ | ⟨hn, _, he, hw, _⟩⟩ := operate_eq status ressize op jail p w
    all_goals rw [he]
    case inl     => exact (Asks.refl w.backend).of_iff fun t => by simp [h0]
    case inr.inl => exact hw ▸ (Asks.block p.here.text w.backend).of_iff fun t => by simp; omega
    case inr.inr => exact hw ▸ (Asks.unban p.here.text w.backend).of_iff fun t => by simp [hn]
  obtain rfl : (Jail.cmdIp inet status ressize op now ip jail w).2.2 = w' := by rw [h]
  simp only [Jail.cmdIp, hb, Bool.not_true, Bool.false_and, Bool.false_eq_true, if_false]
  cases hl : Addrlist.lookup jail.ipaddrs ip
  case some p => exact (ho jail p).of_iff (by simp)
  case none   =>
    by_cases hp : op > 0
    case neg => simp only [hp, if_false]; exact (Asks.refl w.backend).of_iff (by simp)
    case pos =>
      simp only [hp, if_true]
      cases Ipaddr.create inet ip
      case none => exact (Asks.refl w.backend).of_iff (by simp)
      case some => exact (ho _ _).of_iff fun t => by simp; omega

end Asks
end Jail

namespace Shared

variable {ι : Type} [DecidableEq ι] {env : Env} {s s' : Shared ι} {l : ι × Op}

theorem step_eq (h : s.Step env l s') :
    ∃ t, System.Works env (s.single l.1) t ∧ s' = ⟨Function.update s.jails l.1 t.jail, t.world⟩ := by
  obtain ⟨i, op⟩ := l
  cases op
  case start => cases h
  case stop  => cases h
  all_goals
    simp only [Step, step, Option.map_eq_some_iff] at h
    have ⟨t, ht, he⟩ := h
    obtain ⟨_, _, ho, _⟩ | ⟨_, ho, _⟩ | hw := System.Step.cases ht
    · cases ho
    · cases ho
    · exact ⟨t, hw, he.symm⟩

structure Inv (s : Shared ι) : Prop where
  running : ∀ i, (s.jails i).settings.Running
  covered : ∀ i, Jail.Covered ((s.jails i).view s.world)

theorem asks_of_step (h : s.Step env l s') (hi : s.Inv) :
    Jail.Asks (s.Releases env l) s.world.backend s'.world.backend := by
  obtain ⟨i, op⟩ := l
  cases op
  case start => cases h
  case stop  => cases h
  all_goals
    simp only [Step, step, Option.map_eq_some_iff] at h
    obtain ⟨t, ht, rfl⟩ := h
  case process => exact .process (hi.covered i).nodup (System.process_eq ht).2.2.2
  case set     =>
    have ⟨_, _, _, hw, _⟩ := System.set_eq ht
    exact hw ▸ .refl s.world.backend
  case ip      =>
    obtain ⟨_, _, _, _, hp⟩ := System.ip_eq ht
    exact .cmdIp (hi.running i).hasBackend hp

-- In terms of the operation and the state before it, what it may not release.
theorem releasesOwn_iff (h : s.Step env l s') (hi : s.Inv) : s.ReleasesOwn env l ↔
    ∀ t, s.Releases env l t → ∀ j ≠ l.1, ¬Jail.Holds (s.jails j).ipaddrs t := by
  obtain ⟨new, hn, hu⟩ := asks_of_step h hi
  have hs : s.step env l = some s' := h
  simp only [ReleasesOwn, hs, Option.mem_some_iff, forall_eq', hn, List.drop_left, ← hu]
  constructor
  case mp  => rintro hr _ ⟨c, hc, hk, rfl⟩; exact hr c hc hk
  case mpr => exact fun hr c hc hk => hr _ ⟨c, hc, hk, rfl⟩

theorem Inv.step (h : s.Step env l s') (hr : ReleasesOwn env s l) (hi : s.Inv) : s'.Inv := by
  obtain ⟨t, hw, rfl⟩ := step_eq h
  have hm := hw.moves (hi.running l.1)
  have hc : Jail.Covered t.view := hm.invariant (fun _ _ m => Jail.Covered.move m) (hi.covered l.1)
  refine ⟨fun j => ?_, fun j => ?_⟩ <;> by_cases hj : j = l.1
  case pos => subst hj; simpa using hw.settings (hi.running l.1)
  case neg => simpa [hj] using hi.running j
  case pos => subst hj; simpa [Jail.view, System.view] using hc
  case neg =>
    refine ⟨by simpa [Jail.view, hj] using (hi.covered j).nodup, hc.reliable, fun ip => ?_⟩
    -- The calls of this step are those that its log has more.
    obtain ⟨new, hn, hk⟩ := hm.keeps (t := Jail.Holds (s.jails j).ipaddrs)
    have hr := hr _ h
    simp only [single, System.view, Jail.view] at hn hk
    simp only [hn, List.drop_left] at hr
    simpa [Jail.view, hj] using hk (fun c hc hu => hr c hc hu j hj) (hi.covered j).blocked ip

-- In every run where no jail releases an address that another one holds banned, an address is
-- blocked as long as at least one jail holds it banned.
theorem blocked_of_banned
    (h : Transition.Reachable Started (Transition.Guarded (Step env) (ReleasesOwn env)) s)
    (ip : CString) : (∃ i, ∃ a ∈ (s.jails i).ipaddrs, a.banned ∧ a.text = ip) →
    ip ∈ s.world.backend.blocked := by
  rintro ⟨i, hb⟩
  have hi : s.Inv := h.invariant (fun s hs => ⟨hs.running, fun i =>
    ⟨hs.nodup i, ⟨hs.answers, by simp [Jail.view, hs.calls, Blocklist.AllHarmless]⟩, hs.blocked i⟩⟩)
    fun _ _ _ hs hi => hi.step hs.1 hs.2
  exact (hi.covered i).blocked ip hb

section Example

def sshPair : Shared Bool where
  jails _ := Jail.create System.quadEnv.atof .builtin ⟨"ssh".toList, .jail, System.sshParams⟩
  world   := ⟨⟨[], [], []⟩, [], fun _ => none⟩

theorem sshPair_started : sshPair.Started where
  running := fun i => ⟨Jail.Settings.Positive.builtin.foldl System.sshParams, by revert i; decide⟩
  nodup   := fun _ => .nil
  blocked := by rintro _ _ ⟨_, ⟨⟩, _⟩
  answers := rfl
  calls   := rfl

def banTwice : List (Bool × Op) :=
  [(false, .ip 1001 1 "192.0.2.7".toList), (true, .ip 1001 1 "192.0.2.7".toList)]

-- The first jail bans another address besides, and releases it.
theorem blocked_of_banned_twice :
    ∃ s, Transition.replay (step System.quadEnv) sshPair (banTwice ++
      [(false, .ip 1002 1 "192.0.2.8".toList), (false, .ip 1003 (-1) "192.0.2.8".toList)]) = some s ∧
    ⟨.unban, "192.0.2.8".toList, true, true⟩ ∈ s.world.backend.calls ∧
    "192.0.2.7".toList ∈ s.world.backend.blocked := by
  let s₁ := (step System.quadEnv sshPair (false, .ip 1001 1 "192.0.2.7".toList)).get (by decide)
  let s₂ := (step System.quadEnv s₁ (true, .ip 1001 1 "192.0.2.7".toList)).get (by decide)
  let s₃ := (step System.quadEnv s₂ (false, .ip 1002 1 "192.0.2.8".toList)).get (by decide)
  let s₄ := (step System.quadEnv s₃ (false, .ip 1003 (-1) "192.0.2.8".toList)).get (by decide)
  have h₁ : Transition.Guarded (Step System.quadEnv) (ReleasesOwn System.quadEnv) sshPair
      (false, .ip 1001 1 "192.0.2.7".toList) s₁ := ⟨(Option.some_get _).symm, by decide⟩
  have h₂ : Transition.Guarded (Step System.quadEnv) (ReleasesOwn System.quadEnv) s₁
      (true, .ip 1001 1 "192.0.2.7".toList) s₂ := ⟨(Option.some_get _).symm, by decide⟩
  have h₃ : Transition.Guarded (Step System.quadEnv) (ReleasesOwn System.quadEnv) s₂
      (false, .ip 1002 1 "192.0.2.8".toList) s₃ := ⟨(Option.some_get _).symm, by decide⟩
  have h₄ : Transition.Guarded (Step System.quadEnv) (ReleasesOwn System.quadEnv) s₃
      (false, .ip 1003 (-1) "192.0.2.8".toList) s₄ := ⟨(Option.some_get _).symm, by decide⟩
  have r := Transition.Steps.step h₁ (.step h₂ (.step h₃ (.step h₄ .refl)))
  exact ⟨s₄, rfl, by decide, blocked_of_banned ⟨_, _, sshPair_started, r⟩ _ ⟨true, by decide⟩⟩

-- The first jail releases the address, and the second one still holds it banned.
theorem banned_not_blocked_shared :
    ∃ s : Shared Bool, Transition.Reachable Started (Step System.quadEnv) s ∧
    ¬∀ ip, (∃ i, ∃ a ∈ (s.jails i).ipaddrs, a.banned ∧ a.text = ip) →
      ip ∈ s.world.backend.blocked := by
  refine ⟨(Transition.replay (step System.quadEnv) sshPair
    (banTwice ++ [(false, .ip 1002 (-1) "192.0.2.7".toList)])).get (by decide),
    ⟨_, _, sshPair_started, .of_replay (Option.some_get _).symm⟩, fun h => ?_⟩
  have := h "192.0.2.7".toList ⟨true, by decide⟩
  revert this
  decide

end Example
end Shared
end F2b
