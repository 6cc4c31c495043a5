import F2b.Jail.Moves

-- What a pass does to each host: the lines first, then the release of bans and the cleanup.

namespace F2b.Jail

variable {β : Type} [Backend β] {inet : Inet} {jail jail' : Jail} {w w' : World β} {filter : Filter}
  {now : Int} {feed : List (UInt32 × CString)} {fate : SaveFate}

-- The texts that the lines of a pass make matches of.
def Captured (filter : Filter) (feed : List (UInt32 × CString)) (jail : Jail) (t : CString) : Prop :=
  ∃ line ∈ handed jail feed, ∃ hit, jail.capture filter line = .ok (some hit) ∧ hit.text = t

theorem capture_settings (h : jail'.settings = jail.settings) (filter : Filter) (line : CString) :
    jail'.capture filter line = jail.capture filter line := by
  simp only [capture, h]

theorem mem_consume_iff {stag : UInt32} {line : CString} {a : Ipaddr} (hl : a.text.length < IPADDR_MAX)
    (hn : ∀ hit, jail.capture filter line = .ok (some hit) → hit.text ≠ a.text)
    (h : jail.consume inet filter now stag line w = .ok (jail', w')) :
    a ∈ jail'.ipaddrs ↔ a ∈ jail.ipaddrs := by
  obtain ⟨_, he⟩ | ⟨hit, p, hc, hp, he⟩ := consume_ok h
  case inl => rw [(Prod.mk.inj he).1]
  case inr =>
    have ⟨hh, hm⟩ : p.here.text ≠ a.text ∧ (a ∈ p.list ↔ a ∈ jail.ipaddrs) := by
      obtain hk | ⟨new, hw, _, rfl⟩ := track_ok hp
      case inl =>
        refine ⟨fun ht => hn hit hc ?_, by rw [Addrlist.lookup_list hk]⟩
        exact (Addrlist.text_of_lookup hk (ht ▸ hl)).symm.trans ht
      case inr =>
        have hh : new.text ≠ a.text := Ipaddr.text_create hw ▸ hn hit hc
        exact ⟨hh, List.mem_cons.trans (or_iff_right fun ha => hh (congrArg _ ha.symm))⟩
    have hs {b : Ipaddr} (hb : b.text = p.here.text) : a ∈ (p.set b).list ↔ a ∈ p.list := by
      have hb : a ≠ b := fun ha => hh (hb ▸ congrArg _ ha.symm)
      have hp : a ≠ p.here := fun ha => hh (congrArg _ ha.symm)
      simp only [Place.mem_list_iff, Place.here_set, hb, hp, false_or]
      rfl
    obtain ⟨b, hb, _, ⟨_, _, ho, _⟩ | ⟨_, _, _, ho, _⟩⟩ := observe_eq jail p now stag hit w
    all_goals obtain ⟨rfl, _⟩ := Prod.mk.inj (he.trans ho)
    case inl => exact (hs hb.text).trans hm
    case inr => exact (hs (show (banned jail.settings b).text = p.here.text from hb.text)).trans hm

theorem mem_gather_iff {a : Ipaddr} (hl : a.text.length < IPADDR_MAX) (hn : ¬Captured filter feed jail a.text)
    (h : gather inet filter now feed jail w = .ok (jail', w')) :
    a ∈ jail'.ipaddrs ↔ a ∈ jail.ipaddrs := by
  have hi : Frame jail w jail' w' ∧ (a ∈ jail'.ipaddrs ↔ a ∈ jail.ipaddrs) := by
    refine gather_induction (P := fun j v => Frame jail w j v ∧ (a ∈ j.ipaddrs ↔ a ∈ jail.ipaddrs))
      ?_ h ⟨⟨rfl, rfl, rfl, rfl⟩, .rfl⟩
    intro stag line j v j' v' hm hc ⟨hf, ha⟩
    refine ⟨hf.trans (consume_frame hc), (mem_consume_iff hl (fun hit hh ht => hn ?_) hc).trans ha⟩
    exact ⟨line, hm, hit, capture_settings hf.settings filter line ▸ hh, ht⟩
  exact hi.2

-- What the release of a ban that is over leaves of a record.
def eased (now : Int) (a : Ipaddr) : Ipaddr :=
  if a.banned && now > a.releaseAt then released a else a

theorem lastseen_eased (now : Int) (a : Ipaddr) : (eased now a).lastseen = a.lastseen := by
  simp only [eased]
  split <;> rfl

theorem text_eased (now : Int) (a : Ipaddr) : (eased now a).text = a.text := by
  simp only [eased]
  split <;> rfl

theorem released_of_eased {a b : Ipaddr} (hb : a.banned) (h : eased now b = a) : b = a ∧ now ≤ a.releaseAt := by
  simp only [eased] at h
  split at h
  case isTrue     => simp [← h, released] at hb
  case isFalse hd =>
    subst h
    exact ⟨rfl, by simpa [hb] using hd⟩

theorem release_fst (jail : Jail) (now : Int) (a : Ipaddr) (w : World β) :
    (jail.release now a w).1 = eased now a := by
  have ⟨_, _, he, _⟩ := unban_eq jail a w
  simp only [release, eased]
  split
  · rw [he]
  · rfl

def due (now : Int) (a : Ipaddr) : Bool :=
  a.banned && now > a.releaseAt

def releaseDue (now : Int) (as : List Ipaddr) (b : β) : β :=
  (as.filter (due now)).foldl (fun b a => (Backend.unban a.text b).2) b

theorem maintain_eq (jail : Jail) (now : Int) (as : List Ipaddr) (w : World β) :
    (maintain jail now as w).1 = (as.map (eased now)).filter (!jail.expired now ·) ∧
    (maintain jail now as w).2.backend = releaseDue now as w.backend := by
  induction as generalizing w
  case nil          => exact ⟨rfl, rfl⟩
  case cons a as hi =>
    have hr := release_fst jail now a w
    have ⟨hi₁, hi₂⟩ := hi (jail.release now a w).2
    constructor
    case left  =>
      simp only [maintain, List.map_cons, List.filter_cons, hr, hi₁]
      cases jail.expired now (eased now a) <;> rfl
    case right =>
      have hm : (maintain jail now (a :: as) w).2 = (maintain jail now as (jail.release now a w).2).2 := by
        simp only [maintain]
        split <;> rfl
      rw [hm, hi₂]
      obtain ⟨hb, hd, w', he, hw, _⟩ | ⟨hn, he⟩ := release_eq jail now a w
      case inl => simp [releaseDue, due, hb, hd, he, hw]
      case inr =>
        have hd : due now a = false := by
          simpa [due] using hn
        simp [releaseDue, hd, he]

theorem process_hosts (h : process inet filter now feed fate jail w = .ok (jail', w')) :
    ∃ jail₁ w₁, gather inet filter now feed jail w = .ok (jail₁, w₁) ∧
    jail'.ipaddrs = (jail₁.ipaddrs.map (eased now)).filter (!jail₁.expired now ·) := by
  have ⟨jail₁, w₁, hg, hr⟩ := process_ok h
  have hv := save_view fate (tidy now jail₁ w₁).1 (tidy now jail₁ w₁).2
  rw [← hr] at hv
  exact ⟨jail₁, w₁, hg, (congrArg Prod.fst hv).trans (maintain_eq jail₁ now jail₁.ipaddrs w₁).1⟩

theorem mem_process_iff {a : Ipaddr} (hl : a.text.length < IPADDR_MAX) (hn : ¬Captured filter feed jail a.text)
    (h : process inet filter now feed fate jail w = .ok (jail', w')) :
    a ∈ jail'.ipaddrs ↔ (∃ b ∈ jail.ipaddrs, eased now b = a) ∧ ¬jail.expired now a := by
  have ⟨jail₁, w₁, hg, he⟩ := process_hosts h
  have hx : jail₁.expired now a = jail.expired now a := by
    simp only [expired, (gather_frame hg).settings]
  have hm {b : Ipaddr} (hb : eased now b = a) : b ∈ jail₁.ipaddrs ↔ b ∈ jail.ipaddrs := by
    have ht : b.text = a.text := hb ▸ (text_eased now b).symm
    exact mem_gather_iff (ht ▸ hl) (ht ▸ hn) hg
  rw [he, List.mem_filter, List.mem_map, hx, Bool.not_eq_true', Bool.not_eq_true]
  exact and_congr_left' (exists_congr fun b => and_congr_left hm)

end F2b.Jail
