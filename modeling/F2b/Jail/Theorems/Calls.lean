import F2b.Jail.Theorems.Unique

-- What a jail asks of its backend: all that it hands over are valid addresses that an operation has named.

namespace F2b

variable {β : Type} [Backend β] {inet : Inet} {A : CString → Prop} {P : β → Prop}

structure Backend.Keeps (A : CString → Prop) (P : β → Prop) : Prop where
  ping  : ∀ b, P b → P (Backend.ping b).2
  check : ∀ ip b, A ip → P b → P (Backend.check ip b).2
  ban   : ∀ ip b, A ip → P b → P (Backend.ban ip b).2
  unban : ∀ ip b, A ip → P b → P (Backend.unban ip b).2
  stop  : ∀ b, P b → P (Backend.stop b).2

namespace Jail

def Within (A : CString → Prop) (l : List Ipaddr) : Prop :=
  ∀ t ∈ Addrlist.texts l, A t

variable {l : List Ipaddr} {p : Place Ipaddr} {a : Ipaddr}

theorem within_cons_iff : Within A (a :: l) ↔ A a.text ∧ Within A l :=
  List.forall_mem_cons

theorem Within.here (h : Within A p.list) : A p.here.text :=
  h _ (Addrlist.mem_texts_iff.mpr ⟨_, p.here_mem, rfl⟩)

theorem Within.set (h : Within A p.list) (ht : a.text = p.here.text) : Within A (p.set a).list := by
  rw [Within, Addrlist.texts_set ht]
  exact h

end Jail

namespace Backend.Keeps

variable {b : β} {ip : CString} {as : List Ipaddr}

theorem block (h : Keeps A P) (ha : A ip) (hp : P b) : P (Backend.block ip b) := by
  have hc := h.check ip b ha hp
  simp only [Backend.block]
  split
  case isTrue  => exact hc
  case isFalse => exact h.ban ip _ ha hc

omit [Backend β] in
theorem foldl {f : CString → β → β} (hf : ∀ t b, A t → P b → P (f t b)) (q : Ipaddr → Bool)
    (ha : Jail.Within A as) (hp : P b) : P ((as.filter q).foldl (fun b a => f a.text b) b) := by
  have ha : ∀ a ∈ as.filter q, A a.text := fun a hm =>
    ha _ (Addrlist.mem_texts_iff.mpr ⟨a, List.mem_of_mem_filter hm, rfl⟩)
  generalize as.filter q = as at ha
  induction as generalizing b
  case nil          => exact hp
  case cons a as hi =>
    have ⟨ht, ha⟩ := List.forall_mem_cons.mp ha
    exact hi (hf _ _ ht hp) ha

theorem blockAll (h : Keeps A P) (ha : Jail.Within A as) (hp : P b) : P (Jail.blockAll as b) :=
  foldl (f := Backend.block) (fun _ _ => h.block) (·.banned) ha hp

theorem unblockAll (h : Keeps A P) (ha : Jail.Within A as) (hp : P b) : P (Jail.unblockAll as b) :=
  foldl h.unban (·.banned) ha hp

theorem releaseDue (now : Int) (h : Keeps A P) (ha : Jail.Within A as) (hp : P b) :
    P (Jail.releaseDue now as b) :=
  foldl h.unban (Jail.due now) ha hp

end Backend.Keeps

namespace Jail

variable {jail jail' : Jail} {w w' : World β} {filter : Filter} {now : Int}

structure Confined (A : CString → Prop) (P : β → Prop) (jail : Jail) (w : World β) : Prop where
  within  : Within A jail.ipaddrs
  backend : P w.backend

theorem Confined.consume {stag : UInt32} {line : CString} (hk : Backend.Keeps A P)
    (hn : ∀ hit, jail.capture filter line = .ok (some hit) → Ipaddr.Valid inet hit.text → A hit.text)
    (h : consume inet filter now stag line jail w = .ok (jail', w')) (hc : Confined A P jail w) :
    Confined A P jail' w' := by
  obtain ⟨_, he⟩ | ⟨hit, p, hcap, hp, he⟩ := consume_ok h
  case inl =>
    obtain ⟨rfl, rfl⟩ := Prod.mk.inj he
    exact hc
  case inr =>
    have hw : Within A p.list := by
      obtain hl | ⟨new, hw, _, rfl⟩ := track_ok hp
      case inl => exact Addrlist.lookup_list hl ▸ hc.within
      case inr =>
        refine within_cons_iff.mpr ⟨?_, hc.within⟩
        exact Ipaddr.text_create hw ▸ hn hit hcap (Ipaddr.valid_of_create hw)
    obtain ⟨a, ha, _, ⟨_, _, ho, hb, _⟩ | ⟨_, _, _, ho, hb, _⟩⟩ := observe_eq jail p now stag hit w
    all_goals obtain ⟨rfl, rfl⟩ := Prod.mk.inj (he.trans ho)
    case inl => exact ⟨hw.set ha.text, hb ▸ hc.backend⟩
    case inr =>
      have hs : Within A (p.set a).list := hw.set ha.text
      exact ⟨hs.set rfl, hb ▸ hk.block (hs.here) hc.backend⟩

theorem Confined.gather {feed : List (UInt32 × CString)} (hk : Backend.Keeps A P)
    (hn : ∀ t, Captured filter feed jail t → Ipaddr.Valid inet t → A t)
    (h : gather inet filter now feed jail w = .ok (jail', w')) (hc : Confined A P jail w) :
    Confined A P jail' w' := by
  have hi : Frame jail w jail' w' ∧ Confined A P jail' w' := by
    refine gather_induction (P := fun j v => Frame jail w j v ∧ Confined A P j v) ?_ h
      ⟨⟨rfl, rfl, rfl, rfl⟩, hc.within, hk.ping _ hc.backend⟩
    intro stag line j v j' v' hl h ⟨hf, hc⟩
    refine ⟨hf.trans (consume_frame h), hc.consume hk (fun hit hh => hn _ ?_) h⟩
    exact ⟨line, hl, hit, capture_settings hf.settings filter line ▸ hh, rfl⟩
  exact hi.2

theorem Confined.tidy (now : Int) (hk : Backend.Keeps A P) (hc : Confined A P jail w) :
    Confined A P (tidy now jail w).1 (tidy now jail w).2 := by
  have ⟨hl, hb⟩ := maintain_eq jail now jail.ipaddrs w
  have hl : (Jail.tidy now jail w).1.ipaddrs = _ := hl
  constructor
  case within  =>
    intro t ht
    obtain ⟨a, ha, rfl⟩ := Addrlist.mem_texts_iff.mp ht
    obtain ⟨b, hm, rfl⟩ := List.mem_map.mp (List.mem_filter.mp (hl ▸ ha)).1
    exact hc.within _ (Addrlist.mem_texts_iff.mpr ⟨b, hm, (text_eased now b).symm⟩)
  case backend =>
    have hp := hk.releaseDue now hc.within hc.backend
    exact hb.symm ▸ hp

-- The list and the backend after a pass are those of its second half.
theorem process_tidy {feed : List (UInt32 × CString)} {fate : SaveFate}
    (h : process inet filter now feed fate jail w = .ok (jail', w')) :
    ∃ jail₁ w₁, gather inet filter now feed jail w = .ok (jail₁, w₁) ∧
    jail'.ipaddrs = (tidy now jail₁ w₁).1.ipaddrs ∧ w'.backend = (tidy now jail₁ w₁).2.backend := by
  have ⟨jail₁, w₁, hg, hr⟩ := process_ok h
  have hv := save_view fate (tidy now jail₁ w₁).1 (tidy now jail₁ w₁).2
  rw [← hr] at hv
  exact ⟨jail₁, w₁, hg, Prod.mk.inj hv⟩

theorem Confined.process {feed : List (UInt32 × CString)} {fate : SaveFate} (hk : Backend.Keeps A P)
    (hn : ∀ t, Captured filter feed jail t → Ipaddr.Valid inet t → A t)
    (h : process inet filter now feed fate jail w = .ok (jail', w')) (hc : Confined A P jail w) :
    Confined A P jail' w' := by
  have ⟨_, _, hg, hl, hb⟩ := process_tidy h
  have ht := (hc.gather hk hn hg).tidy now hk
  exact ⟨hl ▸ ht.within, hb ▸ ht.backend⟩

theorem Confined.operate {status : Ipaddr → CString} {ressize : Nat} {op : Int} (hk : Backend.Keeps A P)
    (hw : Within A p.list) (hl : op = 0 → jail.ipaddrs = p.list) (hp : P w.backend) :
    Confined A P (operate status ressize op jail p w).2.1 (operate status ressize op jail p w).2.2 := by
  obtain ⟨_, ⟨h0, he⟩ | ⟨_, _, he, hb, _⟩ | ⟨_, _, he, hb, _⟩⟩ := operate_eq status ressize op jail p w
  all_goals rw [he]
  case inl     => exact ⟨hl h0 ▸ hw, hp⟩
  case inr.inl => exact ⟨hw.set rfl, hb ▸ hk.block hw.here hp⟩
  case inr.inr => exact ⟨hw.set rfl, hb ▸ hk.unban _ _ hw.here hp⟩

theorem Confined.cmdIp {status : Ipaddr → CString} {ressize : Nat} {op : Int} {ip reply : CString}
    (hk : Backend.Keeps A P) (hn : op > 0 → Ipaddr.Valid inet ip → A ip)
    (h : cmdIp inet status ressize op now ip jail w = (reply, jail', w')) (hc : Confined A P jail w) :
    Confined A P jail' w' := by
  obtain ⟨_, he⟩ | ⟨p, hl, he⟩ | ⟨hp, hl, new, stats, hw, he⟩ := cmdIp_eq inet status ressize op now jail ip w
  all_goals
    have he := h.symm.trans he
    obtain ⟨rfl, rfl⟩ : jail' = _ ∧ w' = _ := ⟨congrArg (·.2.1) he, congrArg (·.2.2) he⟩
  case inl     => exact hc
  case inr.inl =>
    have hl := Addrlist.lookup_list hl
    exact .operate hk (hl ▸ hc.within) (fun _ => hl.symm) hc.backend
  case inr.inr =>
    refine .operate hk (within_cons_iff.mpr ⟨?_, hc.within⟩) (fun h0 => absurd h0 (by omega)) hc.backend
    exact Ipaddr.text_create hw ▸ hn hp (Ipaddr.valid_of_create hw)

end Jail

namespace System

variable {env : Env} {s s' : System β} {op : Op}

-- The addresses that an operation brings in: those of the state file, those that the lines of a pass are captured
-- from, and the one of an 'ip ban'.
def Names (env : Env) (s : System β) : Op → CString → Prop
  | .start params _,         t => t ∈ Addrlist.texts (loaded env params s)
  | .process filter _ feed _, t => Jail.Captured filter feed s.jail t
  | .ip _ op ip,             t => op > 0 ∧ ip = t
  | .set ..,                 _ => False
  | .stop _,                 _ => False

section Pass

variable {jail : Jail} {world : World β} {now : Int}

theorem Wellformed.consume {filter : Filter} {stag : UInt32} {line : CString}
    (h : Jail.consume env.inet filter now stag line s.jail s.world = .ok (jail, world)) (hs : s.Wellformed env) :
    { s with jail, world }.Wellformed env := by
  intro hu
  have ⟨hr, hv⟩ := hs hu
  have hm := (Jail.consume_moves h).invariant (P := fun x => Jail.AllValid env.inet x.1) (fun _ _ m => .move m) hv
  exact ⟨(Jail.consume_frame h).settings ▸ hr, hm⟩

theorem Wellformed.finish {fate : SaveFate} (clock : Int)
    (h : Jail.save fate (Jail.tidy now s.jail s.world).1 (Jail.tidy now s.jail s.world).2 = (jail, world))
    (hs : s.Wellformed env) : { s with clock, jail, world }.Wellformed env := by
  intro hu
  have ⟨hr, hv⟩ := hs hu
  have hl := Jail.save_view fate (Jail.tidy now s.jail s.world).1 (Jail.tidy now s.jail s.world).2
  have hset := Jail.save_settings fate (Jail.tidy now s.jail s.world).1 (Jail.tidy now s.jail s.world).2
  rw [h] at hl hset
  have ht : Jail.Moves env.inet (s.jail.view s.world) ((Jail.tidy now s.jail s.world).1.view
      (Jail.tidy now s.jail s.world).2) := Jail.tidy_moves (Int.le_of_lt hr.expiretime)
  have hm := ht.invariant (P := fun x => Jail.AllValid env.inet x.1) (fun _ _ m => .move m) hv
  have hset : jail.settings = s.jail.settings := hset
  exact ⟨hset.symm ▸ hr, (Prod.mk.inj hl).1.symm ▸ hm⟩

end Pass

-- The hosts of a jail that is up are of `A`, and its backend has a property.
structure Confined (A : CString → Prop) (P : β → Prop) (s : System β) : Prop where
  within  : s.up → Jail.Within A s.jail.ipaddrs
  backend : P s.world.backend

theorem Step.confined (h : s.Step env op s') (hk : Backend.Keeps A P) (hw : s.Wellformed env)
    (hn : ∀ t, s.Names env op t → Ipaddr.Valid env.inet t → A t) (hc : s.Confined A P) : s'.Confined A P := by
  cases op
  case start params now =>
    have st := start_eq h
    have ha : Jail.Within A s'.jail.ipaddrs := by
      intro t ht
      rw [st.ipaddrs, texts_lapse] at ht
      obtain ⟨a, ha, rfl⟩ := Addrlist.mem_texts_iff.mp ht
      exact hn _ ht (valid_of_mem_loaded ha)
    exact ⟨fun _ => ha, st.backend ▸ hk.blockAll ha hc.backend⟩
  case stop =>
    have st := stop_eq h
    have hb := hk.stop _ (hk.unblockAll (hc.within st.up) hc.backend)
    exact ⟨fun hu => by simp [st.down] at hu, st.backend (hw st.up).1.hasBackend ▸ hb⟩
  case process =>
    have ⟨hu, _, _, hp⟩ := process_eq h
    have hc' := Jail.Confined.process hk hn hp ⟨hc.within hu, hc.backend⟩
    exact ⟨fun _ => hc'.within, hc'.backend⟩
  case ip =>
    have ⟨hu, _, _, _, hp⟩ := ip_eq h
    have hc' := Jail.Confined.cmdIp hk (fun hp => hn _ ⟨hp, rfl⟩) hp ⟨hc.within hu, hc.backend⟩
    exact ⟨fun _ => hc'.within, hc'.backend⟩
  case set =>
    have ⟨hu, _, _, hw, _, hj, _⟩ := set_eq h
    exact ⟨fun _ => hj ▸ hc.within hu, hw ▸ hc.backend⟩

-- What the backend keeps under calls for valid addresses holds in every run.
theorem keeps_of_reachable {init : System β → Prop} (hk : Backend.Keeps (Ipaddr.Valid env.inet) P)
    (hi : ∀ s, init s → s.up = false ∧ P s.world.backend)
    (h : Transition.Reachable init (Step env) s) : P s.world.backend := by
  have hs := h.invariant (P := fun s => s.Wellformed env ∧ s.Confined (Ipaddr.Valid env.inet) P)
    (fun s h₀ => ⟨fun hu => by simp [(hi s h₀).1] at hu, fun hu => by simp [(hi s h₀).1] at hu, (hi s h₀).2⟩)
    fun _ _ _ h hs => ⟨hs.1.step h, h.confined hk hs.1 (fun _ _ hv => hv) hs.2⟩
  exact hs.2.backend

end System
end F2b
