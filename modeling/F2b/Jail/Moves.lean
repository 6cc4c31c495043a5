import F2b.Jail.Control
import Mathlib.Logic.Relation

-- An abstract view of a jail: its list of hosts next to the backend. Every pass and every command
-- is a sequence of the moves below, so what the moves preserve holds over all runs.

namespace F2b

variable {β : Type} [Backend β]

-- The calls that block an address unless the backend knows it already.
def Backend.block (ip : CString) (b : β) : β :=
  let (known, b) := Backend.check ip b
  if known then b else (Backend.ban ip b).2

-- What a new match leaves of a record: all but its history.
structure Ipaddr.Touched (a a' : Ipaddr) : Prop where
  type      : a'.type = a.type
  text      : a'.text = a.text
  banned    : a'.banned = a.banned
  bancount  : a'.bancount = a.bancount
  bannedAt  : a'.bannedAt = a.bannedAt
  releaseAt : a'.releaseAt = a.releaseAt
  binary    : a'.binary = a.binary

namespace Ipaddr.Touched

variable {a₁ a₂ a₃ : Ipaddr}

theorem refl (a : Ipaddr) : a.Touched a :=
  ⟨rfl, rfl, rfl, rfl, rfl, rfl, rfl⟩

theorem trans (h₁ : a₁.Touched a₂) (h₂ : a₂.Touched a₃) : a₁.Touched a₃ where
  type      := h₂.type.trans h₁.type
  text      := h₂.text.trans h₁.text
  banned    := h₂.banned.trans h₁.banned
  bancount  := h₂.bancount.trans h₁.bancount
  bannedAt  := h₂.bannedAt.trans h₁.bannedAt
  releaseAt := h₂.releaseAt.trans h₁.releaseAt
  binary    := h₂.binary.trans h₁.binary

end Ipaddr.Touched

namespace Jail

inductive Move (inet : Inet) : List Ipaddr × β → List Ipaddr × β → Prop
  | ping {l : List Ipaddr} {b : β} :
    Move inet (l, b) (l, (Backend.ping b).2)
  | create {l : List Ipaddr} {b : β} {addr : CString} {new : Ipaddr} :
    Ipaddr.create inet addr = some new → (∀ a ∈ l, a.text ≠ addr) → Move inet (l, b) (new :: l, b)
  | touch {p : Place Ipaddr} {b : β} {a : Ipaddr} :
    p.here.Touched a → Move inet (p.list, b) ((p.set a).list, b)
  | ban {p : Place Ipaddr} {b : β} {s : Settings} :
    Move inet (p.list, b) ((p.set (banned s p.here)).list, Backend.block p.here.text b)
  | unban {p : Place Ipaddr} {b : β} :
    Move inet (p.list, b) ((p.set (released p.here)).list, (Backend.unban p.here.text b).2)
  | forget {p : Place Ipaddr} {b : β} :
    ¬p.here.banned → Move inet (p.list, b) (p.before ++ p.after, b)

theorem Move.texts {inet : Inet} {x y : List Ipaddr × β} (m : Move inet x y) :
    (∃ addr, Ipaddr.Valid inet addr ∧ addr ∉ Addrlist.texts x.1 ∧
      Addrlist.texts y.1 = addr :: Addrlist.texts x.1) ∨
    (Addrlist.texts y.1).Sublist (Addrlist.texts x.1) := by
  cases m
  case ping         => exact .inr (.refl _)
  case create hc hn =>
    refine .inl ⟨_, Ipaddr.valid_of_create hc, ?_, by simp [Addrlist.texts, Ipaddr.text_create hc]⟩
    simpa [Addrlist.mem_texts_iff] using hn
  case touch ht     => exact .inr (Addrlist.texts_set ht.text ▸ .refl _)
  case ban p _ s    =>
    exact .inr (Addrlist.texts_set (show (banned s p.here).text = p.here.text from rfl) ▸ .refl _)
  case unban p _    =>
    exact .inr (Addrlist.texts_set (show (released p.here).text = p.here.text from rfl) ▸ .refl _)
  case forget       => exact .inr (.map _ (Place.sublist_list _))

abbrev Moves (inet : Inet) : List Ipaddr × β → List Ipaddr × β → Prop :=
  Relation.ReflTransGen (Move inet)

theorem Moves.invariant {inet : Inet} {P : List Ipaddr × β → Prop} {x y : List Ipaddr × β}
    (m : Moves inet x y) (hm : ∀ x y, Move inet x y → P x → P y) (h : P x) : P y := by
  induction m
  case refl        => exact h
  case tail _ m hi => exact hm _ _ m hi

def view (jail : Jail) (w : World β) : List Ipaddr × β :=
  (jail.ipaddrs, w.backend)

variable {inet : Inet} {jail jail' : Jail} {w w' : World β}

theorem ban_eq (jail : Jail) (addr : Ipaddr) (w : World β) :
    ∃ ok w', jail.ban addr w =
      (ok, { jail with stats.bans := jail.stats.bans + 1 }, banned jail.settings addr, w') ∧
    w'.backend = Backend.block addr.text w.backend ∧ w'.disk = w.disk := by
  have ht : (banned jail.settings addr).text = addr.text := rfl
  simp only [ban, World.call, Backend.block, ht]
  cases (Backend.check addr.text w.backend).1
  case true  => exact ⟨_, _, rfl, rfl, rfl⟩
  case false =>
    cases (Backend.ban addr.text (Backend.check addr.text w.backend).2).1 <;>
      exact ⟨_, _, rfl, rfl, rfl⟩

theorem unban_eq (jail : Jail) (addr : Ipaddr) (w : World β) :
    ∃ ok w', jail.unban addr w = (ok, released addr, w') ∧
    w'.backend = (Backend.unban addr.text w.backend).2 ∧ w'.disk = w.disk := by
  have ht : (released addr).text = addr.text := rfl
  simp only [unban, World.call, ht]
  cases (Backend.unban addr.text w.backend).1 <;> exact ⟨_, _, rfl, rfl, rfl⟩

theorem seen_touched (addr : Ipaddr) (m : Match) : addr.Touched (seen addr m) :=
  ⟨rfl, rfl, rfl, rfl, rfl, rfl, rfl⟩

theorem expireMatches_touched (s : Settings) (now : Int) (addr : Ipaddr) :
    addr.Touched (expireMatches s now addr) :=
  ⟨rfl, rfl, rfl, rfl, rfl, rfl, rfl⟩

theorem observe_eq (jail : Jail) (p : Place Ipaddr) (now : Int) (stag : UInt32) (hit : Hit)
    (w : World β) :
    ∃ a, p.here.Touched a ∧ a.lastseen = now ∧
    ((∃ stats w', jail.observe p now stag hit w =
        ({ jail with ipaddrs := (p.set a).list, stats }, w') ∧
        w'.backend = w.backend ∧ w'.disk = w.disk) ∨
      (∃ stats w', ¬a.banned ∧ jail.observe p now stag hit w =
        ({ jail with
            ipaddrs := (p.set (banned jail.settings a)).list
            stats
            sfile.needSave := jail.settings.flags.hasState || jail.sfile.needSave }, w') ∧
        w'.backend = Backend.block a.text w.backend ∧ w'.disk = w.disk)) := by
  let m : Match := { time := now, stag, ftag := hit.ftag, score := hit.score }
  have hm := seen_touched p.here m
  have hr := expireMatches_touched jail.settings now (seen p.here m)
  simp only [observe]
  split
  case isTrue  => exact ⟨_, hm, rfl, .inl ⟨_, _, rfl, rfl, rfl⟩⟩
  case isFalse hb =>
    have ht : p.here.Touched (expireMatches jail.settings now (seen p.here m)) := hm.trans hr
    split
    case isTrue  => exact ⟨_, ht, rfl, .inl ⟨_, _, rfl, rfl, rfl⟩⟩
    case isFalse =>
      have ⟨_, _, he, hw, hd⟩ := ban_eq { jail with stats.found := jail.stats.found + 1 }
        (expireMatches jail.settings now (seen p.here m)) (w.send (evtMatch jail.name (seen p.here m) m))
      exact ⟨_, ht, rfl, .inr ⟨_, _, hb, by rw [he], hw, hd⟩⟩

variable {filter : Filter} {now : Int} {stag : UInt32} {line : CString}

theorem observe_moves {p : Place Ipaddr} {hit : Hit}
    (h : jail.observe p now stag hit w = (jail', w')) :
    Moves inet (p.list, w.backend) (view jail' w') := by
  obtain ⟨a, ht, _, ⟨_, _, he, hw, _⟩ | ⟨_, _, _, he, hw, _⟩⟩ := observe_eq jail p now stag hit w
  all_goals
    obtain ⟨rfl, rfl⟩ := Prod.mk.inj (h.symm.trans he)
    simp only [view, hw]
  case inl => exact .single (.touch ht)
  case inr => exact .tail (.single (.touch ht)) (Move.ban (p := p.set a))

theorem track_ok {l : List Ipaddr} {text : CString} {p : Place Ipaddr}
    (h : track inet l text = .ok p) :
    (Addrlist.lookup l text = some p) ∨
    (∃ new, Ipaddr.create inet text = some new ∧ (∀ a ∈ l, a.text ≠ text) ∧ p = ⟨[], new, l⟩) := by
  cases hl : Addrlist.lookup l text
  case some q => exact .inl (by simpa [track, hl] using h)
  case none   =>
    have hn : text.length < IPADDR_MAX := by
      by_contra hn
      simp [track, hl, hn] at h
    cases hc : Ipaddr.create inet text
    case none     => simp [track, hl, hn, hc, Addrlist.append] at h
    case some new =>
      refine .inr ⟨new, rfl, fun _ => Addrlist.text_ne_of_lookup hl, ?_⟩
      simpa [track, hl, hn, hc, Addrlist.append] using h.symm

theorem consume_none (h : jail.capture filter line = .ok none) :
    jail.consume inet filter now stag line w = .ok (jail, w) := by
  simp only [consume, h]
  rfl

theorem consume_some {hit : Hit} {p : Place Ipaddr} (h : jail.capture filter line = .ok (some hit))
    (hp : track inet jail.ipaddrs hit.text = .ok p) :
    jail.consume inet filter now stag line w = .ok (jail.observe p now stag hit w) := by
  simp only [consume, h, bind, Except.bind, hp]
  rfl

-- A line that does not end the program matches nothing, or makes a match of one host.
theorem consume_ok {r : Jail × World β} (h : jail.consume inet filter now stag line w = .ok r) :
    (jail.capture filter line = .ok none ∧ r = (jail, w)) ∨
    (∃ hit p, jail.capture filter line = .ok (some hit) ∧
      track inet jail.ipaddrs hit.text = .ok p ∧ r = jail.observe p now stag hit w) := by
  simp only [consume] at h
  cases hc : jail.capture filter line
  case error => simp [hc, bind, Except.bind] at h
  case ok hit =>
    simp only [hc, bind, Except.bind] at h
    cases hit
    case none     => exact .inl ⟨rfl, by simpa [pure, Except.pure] using h.symm⟩
    case some hit =>
      cases hp : track inet jail.ipaddrs hit.text
      case error => simp [hp] at h
      case ok p  => exact .inr ⟨hit, p, rfl, hp, by simpa [hp, pure, Except.pure] using h.symm⟩

theorem consume_moves (h : jail.consume inet filter now stag line w = .ok (jail', w')) :
    Moves inet (view jail w) (view jail' w') := by
  obtain ⟨_, he⟩ | ⟨hit, p, _, hp, he⟩ := consume_ok h
  case inl =>
    obtain ⟨rfl, rfl⟩ := Prod.mk.inj he
    exact .refl
  case inr =>
    have ho : Moves inet (p.list, w.backend) (view jail' w') := observe_moves he.symm
    obtain hl | ⟨new, hn, ht, rfl⟩ := track_ok hp
    case inl => rwa [Addrlist.lookup_list hl] at ho
    case inr => exact .head (.create hn ht) ho

theorem poll_induction {P : Jail → World β → Prop} {feed : List (UInt32 × CString)}
    (hs : ∀ {stag line jail w jail' w'}, line ∈ (feed.takeWhile (·.1 ≠ 0)).map (·.2) →
      jail.consume inet filter now stag line w = .ok (jail', w') → P jail w → P jail' w')
    (h : poll inet filter now feed jail w = .ok (jail', w')) (hp : P jail w) : P jail' w' := by
  induction feed generalizing jail w
  case nil            => simp only [poll, Except.ok.injEq, Prod.mk.injEq] at h; exact h.1 ▸ h.2 ▸ hp
  case cons l feed hi =>
    obtain ⟨stag, line⟩ := l
    by_cases hz : stag = 0
    case pos =>
      simp only [poll, hz, if_true, Except.ok.injEq, Prod.mk.injEq] at h
      exact h.1 ▸ h.2 ▸ hp
    case neg =>
      have ht : ((⟨stag, line⟩ :: feed).takeWhile (·.1 ≠ 0)).map (·.2) =
          line :: (feed.takeWhile (·.1 ≠ 0)).map (·.2) := by
        simp [hz]
      rw [ht] at hs
      cases hc : jail.consume inet filter now stag line w
      case error => simp [poll, hz, hc, bind, Except.bind] at h
      case ok r  =>
        simp only [poll, hz, if_false, hc, bind, Except.bind] at h
        exact hi (fun hm => hs (List.mem_cons_of_mem _ hm)) h (hs List.mem_cons_self hc hp)

-- The source hands over the lines before the first that comes without a tag.
def handed (jail : Jail) (feed : List (UInt32 × CString)) : List CString :=
  if jail.settings.flags.hasSource then (feed.takeWhile (·.1 ≠ 0)).map (·.2) else []

theorem gather_induction {P : Jail → World β → Prop} {feed : List (UInt32 × CString)}
    (hs : ∀ {stag line j v j' v'}, line ∈ handed jail feed →
      consume inet filter now stag line j v = .ok (j', v') → P j v → P j' v')
    (h : gather inet filter now feed jail w = .ok (jail', w'))
    (hp : P jail (w.call Backend.ping).2) : P jail' w' := by
  simp only [gather] at h
  split at h
  case isTrue hf =>
    rw [handed, if_pos hf] at hs
    exact poll_induction hs h hp
  case isFalse   =>
    simp only [Except.ok.injEq, Prod.mk.injEq] at h
    exact h.1 ▸ h.2 ▸ hp

theorem gather_moves {feed : List (UInt32 × CString)}
    (h : gather inet filter now feed jail w = .ok (jail', w')) :
    Moves inet (view jail w) (view jail' w') :=
  gather_induction (P := fun j v => Moves inet (view jail w) (view j v))
    (fun _ hc hm => hm.trans (consume_moves hc)) h (.single .ping)

theorem release_eq (jail : Jail) (now : Int) (addr : Ipaddr) (w : World β) :
    (addr.banned ∧ addr.releaseAt < now ∧ ∃ w', jail.release now addr w = (released addr, w') ∧
      w'.backend = (Backend.unban addr.text w.backend).2 ∧ w'.disk = w.disk) ∨
    ((addr.banned → now ≤ addr.releaseAt) ∧ jail.release now addr w = (addr, w)) := by
  by_cases h : addr.banned ∧ addr.releaseAt < now
  case pos =>
    have ⟨_, w', he, hw, hd⟩ := unban_eq jail addr w
    exact .inl ⟨h.1, h.2, w', by simp [release, h, he], hw, hd⟩
  case neg =>
    refine .inr ⟨fun hb => Int.not_lt.mp fun hn => h ⟨hb, hn⟩, ?_⟩
    have : ¬(addr.banned && decide (now > addr.releaseAt)) := by simpa using h
    simp only [release, this, Bool.false_eq_true, if_false]

theorem expired_iff (jail : Jail) (now : Int) (addr : Ipaddr) :
    jail.expired now addr ↔ max addr.lastseen addr.releaseAt + jail.settings.expiretime < now := by
  simp only [expired, decide_eq_true_eq]
  split <;> omega

theorem le_of_expired {addr : Ipaddr} (h : jail.expired now addr) :
    addr.releaseAt + jail.settings.expiretime < now := by
  have := (expired_iff ..).mp h
  omega

theorem not_banned_of_expired {addr : Ipaddr} (he : 0 ≤ jail.settings.expiretime)
    (hr : addr.banned → now ≤ addr.releaseAt) (h : jail.expired now addr) : ¬addr.banned := by
  intro hb
  have := hr hb
  have := le_of_expired h
  omega

theorem release_moves (jail : Jail) (now : Int) (pre as : List Ipaddr) (addr : Ipaddr) (w : World β) :
    Moves inet (pre ++ addr :: as, w.backend)
      (pre ++ (jail.release now addr w).1 :: as, (jail.release now addr w).2.backend) := by
  obtain ⟨_, _, w', hr, hw, _⟩ | ⟨_, hr⟩ := release_eq jail now addr w
  case inl => exact hr ▸ hw ▸ .single (Move.unban (p := ⟨pre, addr, as⟩))
  case inr => exact hr ▸ .refl

theorem not_due_release (jail : Jail) (now : Int) (addr : Ipaddr) (w : World β)
    (h : (jail.release now addr w).1.banned) :
    now ≤ (jail.release now addr w).1.releaseAt := by
  obtain ⟨_, _, w', hr, _⟩ | ⟨hb, hr⟩ := release_eq jail now addr w <;> rw [hr] at h ⊢
  case inl => simp [released] at h
  case inr => exact hb h

theorem maintain_moves (he : 0 ≤ jail.settings.expiretime) (pre as : List Ipaddr) (w : World β) :
    Moves inet (pre ++ as, w.backend)
      (pre ++ (maintain jail now as w).1, (maintain jail now as w).2.backend) := by
  induction as generalizing pre w
  case nil        => exact .refl
  case cons a as hi =>
    have hr : Moves inet _ _ := release_moves jail now pre as a w
    have hn := not_due_release jail now a w
    simp only [maintain]
    generalize jail.release now a w = r at hr hn
    have hi := hi (pre ++ [r.1]) r.2
    simp only [List.append_assoc, List.singleton_append] at hi
    split
    case isTrue hx =>
      let p : Place Ipaddr := ⟨pre, r.1, (maintain jail now as r.2).1⟩
      exact (hr.trans hi).tail (Move.forget (p := p) (not_banned_of_expired he hn hx))
    case isFalse => exact hr.trans hi

theorem tidy_moves (he : 0 ≤ jail.settings.expiretime) :
    Moves inet (view jail w) (view (tidy now jail w).1 (tidy now jail w).2) :=
  maintain_moves he [] jail.ipaddrs w

-- Reading lines changes neither the settings of a jail nor its name, and no file.
structure Frame {β : Type} (jail : Jail) (w : World β) (jail' : Jail) (w' : World β) : Prop where
  name     : jail'.name = jail.name
  settings : jail'.settings = jail.settings
  path     : jail'.sfile.path = jail.sfile.path
  disk     : w'.disk = w.disk

namespace Frame

variable {β : Type} {jail₁ jail₂ jail₃ : Jail} {w₁ w₂ w₃ : World β}

theorem refl (jail : Jail) (w : World β) : Frame jail w jail w :=
  ⟨rfl, rfl, rfl, rfl⟩

theorem trans (h₁ : Frame jail₁ w₁ jail₂ w₂) (h₂ : Frame jail₂ w₂ jail₃ w₃) :
    Frame jail₁ w₁ jail₃ w₃ where
  name     := h₂.name.trans h₁.name
  settings := h₂.settings.trans h₁.settings
  path     := h₂.path.trans h₁.path
  disk     := h₂.disk.trans h₁.disk

end Frame

theorem consume_frame (h : jail.consume inet filter now stag line w = .ok (jail', w')) :
    Frame jail w jail' w' := by
  obtain ⟨_, he⟩ | ⟨hit, p, _, _, he⟩ := consume_ok h
  case inl =>
    obtain ⟨rfl, rfl⟩ := Prod.mk.inj he
    exact .refl ..
  case inr =>
    obtain ⟨_, _, _, ⟨_, _, ho, _, hd⟩ | ⟨_, _, _, ho, _, hd⟩⟩ := observe_eq jail p now stag hit w
    all_goals
      obtain ⟨rfl, rfl⟩ := Prod.mk.inj (he.trans ho)
      exact ⟨rfl, rfl, rfl, hd⟩

theorem gather_frame {feed : List (UInt32 × CString)}
    (h : gather inet filter now feed jail w = .ok (jail', w')) : Frame jail w jail' w' :=
  gather_induction (P := Frame jail w) (fun _ hc hf => hf.trans (consume_frame hc)) h
    ⟨rfl, rfl, rfl, rfl⟩

theorem process_ok {feed : List (UInt32 × CString)} {fate : SaveFate} {r : Jail × World β}
    (h : process inet filter now feed fate jail w = .ok r) :
    ∃ jail₁ w₁, gather inet filter now feed jail w = .ok (jail₁, w₁) ∧
    r = save fate (tidy now jail₁ w₁).1 (tidy now jail₁ w₁).2 := by
  simp only [process] at h
  cases hg : gather inet filter now feed jail w
  case error => simp [hg, bind, Except.bind] at h
  case ok r₁ => exact ⟨_, _, rfl, by simpa [hg, bind, Except.bind, pure, Except.pure] using h.symm⟩

theorem save_view {β : Type} (fate : SaveFate) (jail : Jail) (w : World β) :
    view (save fate jail w).1 (save fate jail w).2 = view jail w := by
  simp only [save]
  split <;> rfl

theorem process_moves {feed : List (UInt32 × CString)} {fate : SaveFate}
    (he : 0 ≤ jail.settings.expiretime)
    (h : process inet filter now feed fate jail w = .ok (jail', w')) :
    Moves inet (view jail w) (view jail' w') := by
  have ⟨jail₁, w₁, hg, hr⟩ := process_ok h
  have hv := save_view fate (tidy now jail₁ w₁).1 (tidy now jail₁ w₁).2
  rw [← hr] at hv
  have he : 0 ≤ jail₁.settings.expiretime := (gather_frame hg).settings ▸ he
  exact hv ▸ (gather_moves hg).trans (tidy_moves he)

section Commands

variable {status : Ipaddr → CString} {ressize : Nat} {op : Int}

theorem operate_eq (status : Ipaddr → CString) (ressize : Nat) (op : Int) (jail : Jail)
    (p : Place Ipaddr) (w : World β) :
    ∃ reply,
    (op = 0 ∧ operate status ressize op jail p w = (reply, jail, w)) ∨
    (op > 0 ∧ ∃ w', operate status ressize op jail p w =
      (reply, { jail with
        ipaddrs := (p.set (banned jail.settings p.here)).list
        stats.bans := jail.stats.bans + 1 }, w') ∧
      w'.backend = Backend.block p.here.text w.backend ∧ w'.disk = w.disk) ∨
    (op < 0 ∧ ∃ w', operate status ressize op jail p w =
      (reply, { jail with ipaddrs := (p.set (released p.here)).list }, w') ∧
      w'.backend = (Backend.unban p.here.text w.backend).2 ∧ w'.disk = w.disk) := by
  simp only [operate]
  split
  case isTrue h => exact ⟨_, .inl ⟨h, rfl⟩⟩
  case isFalse h =>
    split
    case isTrue hp =>
      have ⟨ok, w', he, hw, hd⟩ := ban_eq jail p.here w
      exact ⟨_, .inr (.inl ⟨hp, w', by rw [he], hw, hd⟩)⟩
    case isFalse hp =>
      have ⟨ok, w', he, hw, hd⟩ := unban_eq jail p.here w
      exact ⟨_, .inr (.inr ⟨by omega, w', by rw [he], hw, hd⟩)⟩

theorem operate_moves {p : Place Ipaddr} {r : CString × Jail × World β}
    (h : operate status ressize op jail p w = r) (hp : op = 0 → jail.ipaddrs = p.list) :
    Moves inet (p.list, w.backend) (view r.2.1 r.2.2) := by
  obtain ⟨_, ⟨h0, he⟩ | ⟨_, w', he, hw, _⟩ | ⟨_, w', he, hw, _⟩⟩ :=
    operate_eq status ressize op jail p w
  all_goals
    rw [← h, he]
    simp only [view]
  case inl      => rw [hp h0]
  case inr.inl  => exact hw ▸ .single .ban
  case inr.inr  => exact hw ▸ .single .unban

theorem fresh_touched (addr : Ipaddr) : addr.Touched (fresh now addr) :=
  ⟨rfl, rfl, rfl, rfl, rfl, rfl, rfl⟩

-- The hosts that a command works on: one of the list, or a new one if it is to be banned.
theorem cmdIp_eq (inet : Inet) (status : Ipaddr → CString) (ressize : Nat) (op now : Int) (jail : Jail)
    (ip : CString) (w : World β) :
    (∃ reply, cmdIp inet status ressize op now ip jail w = (reply, jail, w)) ∨
    (∃ p, Addrlist.lookup jail.ipaddrs ip = some p ∧
      cmdIp inet status ressize op now ip jail w = operate status ressize op jail p w) ∨
    (op > 0 ∧ Addrlist.lookup jail.ipaddrs ip = none ∧
      ∃ new stats, Ipaddr.create inet ip = some new ∧
      cmdIp inet status ressize op now ip jail w = operate status ressize op { jail with
        stats
        sfile.needSave := jail.settings.flags.hasState || jail.sfile.needSave }
        ⟨[], fresh now new, jail.ipaddrs⟩ w) := by
  simp only [cmdIp]
  split
  case isTrue  => exact .inl ⟨_, rfl⟩
  case isFalse =>
    cases hl : Addrlist.lookup jail.ipaddrs ip
    case some p => exact .inr (.inl ⟨p, rfl, rfl⟩)
    case none   =>
      by_cases hp : op > 0
      case neg => exact .inl ⟨_, by simp only [hp, if_false]; rfl⟩
      case pos =>
        cases hc : Ipaddr.create inet ip
        case none     => exact .inl ⟨_, by simp only [hp, if_true]; rfl⟩
        case some new =>
          exact .inr (.inr ⟨hp, rfl, new, _, rfl, by simp only [hp, if_true]; rfl⟩)

theorem cmdIp_moves {ip : CString} {r : CString × Jail × World β}
    (h : cmdIp inet status ressize op now ip jail w = r) :
    Moves inet (view jail w) (view r.2.1 r.2.2) := by
  obtain ⟨_, he⟩ | ⟨p, hl, he⟩ | ⟨hp, hl, new, stats, hn, he⟩ :=
    cmdIp_eq inet status ressize op now jail ip w
  case inl     => exact h ▸ he ▸ .refl
  case inr.inl =>
    have hl := Addrlist.lookup_list hl
    rw [view, ← hl]
    exact operate_moves (he.symm.trans h) fun _ => hl.symm
  case inr.inr =>
    have hm : Moves inet _ _ := operate_moves (he.symm.trans h) fun h0 => absurd h0 (by omega)
    have ht : Move inet (new :: jail.ipaddrs, w.backend) (fresh now new :: jail.ipaddrs, w.backend) :=
      .touch (p := ⟨[], new, jail.ipaddrs⟩) (fresh_touched new)
    exact .head (.create hn fun _ => Addrlist.text_ne_of_lookup hl) (.head ht hm)

end Commands

end Jail
end F2b
