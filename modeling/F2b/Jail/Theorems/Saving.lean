import F2b.Jail.Theorems.Pass
import F2b.Jail.Theorems.System

-- The bans of a jail and the entries of its state file.

namespace F2b

def Ipaddr.ban? (a : Ipaddr) : Option Ban :=
  if a.banned then some a.toBan else none

namespace Jail

def bans (l : List Ipaddr) : List Ban :=
  l.filterMap Ipaddr.ban?

variable {β : Type} [Backend β] {inet : Inet} {l : List Ipaddr} {p : Place Ipaddr} {a : Ipaddr}
variable {b : Ban}

theorem mem_ban?_iff : b ∈ a.ban? ↔ a.banned ∧ a.toBan = b := by
  simp [Ipaddr.ban?]

theorem mem_bans_iff : b ∈ bans l ↔ ∃ a ∈ l, b ∈ a.ban? :=
  List.mem_filterMap

theorem mem_bans_place_iff : b ∈ bans p.list ↔ b ∈ p.here.ban? ∨ b ∈ bans (p.before ++ p.after) := by
  simp only [mem_bans_iff]
  exact p.exists_mem_iff

theorem ban?_of_not_banned (h : ¬a.banned) : a.ban? = none := by
  simp [Ipaddr.ban?, h]

theorem ban?_touched {a' : Ipaddr} (h : a.Touched a') : a'.ban? = a.ban? := by
  simp only [Ipaddr.ban?, Ipaddr.toBan, h.banned, h.text, h.bannedAt, h.releaseAt]

-- The counts that the hosts can have which a pass bans: those of the list, and zero for new hosts.
def counts (l : List Ipaddr) : List Nat :=
  0 :: l.map (·.bancount)

-- What the first half of a pass at `now` has made of a jail with a state file: it keeps the bans, and
-- asks for a save if there are new ones.
structure Gathered (jail₀ : Jail) (now : Int) (jail : Jail) : Prop where
  settings : jail.settings = jail₀.settings
  keeps    : ∀ b ∈ bans jail₀.ipaddrs, b ∈ bans jail.ipaddrs
  bans     : ∀ b ∈ bans jail.ipaddrs, b ∈ bans jail₀.ipaddrs ∨ (jail.sfile.needSave ∧
    b.bannedAt = now ∧ ∃ n ∈ counts jail₀.ipaddrs, b.releaseAt = now + jail₀.settings.banLength n)
  counts   : ∀ a ∈ jail.ipaddrs, ¬a.banned → a.bancount ∈ counts jail₀.ipaddrs
  needSave : jail₀.sfile.needSave → jail.sfile.needSave

variable {jail₀ jail : Jail} {now : Int} {stag : UInt32} {hit : Hit} {w : World β}

theorem Gathered.refl (jail : Jail) (now : Int) : Gathered jail now jail where
  settings := rfl
  keeps    := fun _ h => h
  bans     := fun _ h => .inl h
  counts   := fun _ ha _ => List.mem_cons_of_mem _ (List.mem_map_of_mem ha)
  needSave := fun h => h

theorem Gathered.mem_bans_iff (h : Gathered jail₀ now jail) (hn : ¬jail.sfile.needSave) (b : Ban) :
    b ∈ Jail.bans jail.ipaddrs ↔ b ∈ Jail.bans jail₀.ipaddrs :=
  ⟨fun hb => (h.bans b hb).resolve_right fun h => hn h.1, h.keeps b⟩

theorem Gathered.create {addr : CString} {new : Ipaddr} (h : Gathered jail₀ now jail)
    (hn : Ipaddr.create inet addr = some new) :
    Gathered jail₀ now { jail with ipaddrs := new :: jail.ipaddrs } := by
  have hb : Jail.bans (new :: jail.ipaddrs) = Jail.bans jail.ipaddrs := by
    simp [Jail.bans, ban?_of_not_banned, Ipaddr.banned_create hn]
  refine ⟨h.settings, by simpa [hb] using h.keeps, by simpa [hb] using h.bans, ?_, h.needSave⟩
  refine List.forall_mem_cons.mpr ⟨fun _ => ?_, h.counts⟩
  obtain ⟨_, _, rfl⟩ := Ipaddr.create_eq hn
  exact List.mem_cons_self

theorem Gathered.observe (h : Gathered jail₀ now { jail with ipaddrs := p.list })
    (hs : jail.settings.flags.hasState) :
    Gathered jail₀ now (jail.observe p now stag hit w).1 := by
  obtain ⟨a, ht, hl, ⟨_, _, he, _⟩ | ⟨_, _, hb, he, _⟩⟩ := observe_eq jail p now stag hit w
  all_goals rw [he]
  case inl =>
    have hb : ∀ b, b ∈ Jail.bans (p.set a).list ↔ b ∈ Jail.bans p.list := fun b => by
      simp only [mem_bans_place_iff, Place.here_set, ban?_touched ht, Place.before_set, Place.after_set]
    refine ⟨h.settings, fun b hm => (hb b).mpr (h.keeps b hm),
      fun b hm => h.bans b ((hb b).mp hm), ?_, h.needSave⟩
    have ⟨hc, ho⟩ := p.forall_mem_iff.mp h.counts
    exact (p.set a).forall_mem_iff.mpr ⟨fun hn => ht.bancount ▸ hc (ht.banned ▸ hn), ho⟩
  case inr =>
    have ⟨hc, ho⟩ := p.forall_mem_iff.mp h.counts
    have hn : ¬p.here.banned := ht.banned ▸ hb
    have hp : ∀ b, b ∈ Jail.bans p.list ↔ b ∈ Jail.bans (p.before ++ p.after) := fun b => by
      simp [mem_bans_place_iff, ban?_of_not_banned hn]
    refine ⟨h.settings, fun b hm => ?_, fun b hm => ?_, ?_, fun _ => by simp [hs]⟩
    · exact mem_bans_place_iff.mpr (.inr ((hp b).mp (h.keeps b hm)))
    · obtain hm | hm := mem_bans_place_iff.mp hm
      case inl =>
        obtain ⟨_, rfl⟩ := mem_ban?_iff.mp hm
        have hc := ht.bancount ▸ hc hn
        refine .inr ⟨by simp [hs], hl, a.bancount, hc, ?_⟩
        have hs : jail.settings = jail₀.settings := h.settings
        simp [banned, Ipaddr.toBan, hl, hs]
      case inr =>
        exact (h.bans b ((hp b).mpr hm)).imp_right fun hm => ⟨by simp [hs], hm.2⟩
    · exact (p.set (banned jail.settings a)).forall_mem_iff.mpr ⟨fun hn => absurd rfl hn, ho⟩

theorem Gathered.consume {filter : Filter} {line : CString} {jail' : Jail} {w' : World β}
    (h : Gathered jail₀ now jail) (hs : jail₀.settings.flags.hasState)
    (hc : jail.consume inet filter now stag line w = .ok (jail', w')) :
    Gathered jail₀ now jail' := by
  obtain ⟨_, he⟩ | ⟨hit, p, _, hp, he⟩ := consume_ok hc
  case inl =>
    obtain ⟨rfl, _⟩ := Prod.mk.inj he
    exact h
  case inr =>
    have hs : jail.settings.flags.hasState := h.settings ▸ hs
    obtain ⟨rfl, _⟩ := Prod.mk.inj he
    obtain hl | ⟨new, hn, _, rfl⟩ := track_ok hp
    case inl => exact observe (Addrlist.lookup_list hl ▸ h) hs
    case inr => exact observe (h.create hn) hs

theorem gathered_of_gather {filter : Filter} {feed : List (UInt32 × CString)} {jail' : Jail}
    {w' : World β} (hs : jail.settings.flags.hasState)
    (h : gather inet filter now feed jail w = .ok (jail', w')) : Gathered jail now jail' :=
  gather_induction (P := fun j _ => Gathered jail now j) (fun _ hc hg => hg.consume hs hc) h (.refl ..)

theorem mem_bans_cons_iff : b ∈ bans (a :: l) ↔ b ∈ a.ban? ∨ b ∈ bans l := by
  simp [mem_bans_iff]

theorem mem_bans_maintain_iff (he : 0 ≤ jail.settings.expiretime) :
    (b ∈ bans (maintain jail now l w).1 ↔ b ∈ bans l ∧ now ≤ b.releaseAt) ∧
    (maintain jail now l w).2.disk = w.disk := by
  induction l generalizing w
  case nil          => exact ⟨by simp [maintain, bans], rfl⟩
  case cons a as hi =>
    simp only [maintain]
    obtain ⟨hb, hr, w', he', _, hd⟩ | ⟨hb, he'⟩ := release_eq jail now a w <;> rw [he']
    case inl =>
      have hi := hi (w := w')
      have hn : ¬(released a).banned := by simp [released]
      rw [mem_bans_cons_iff, mem_ban?_iff]
      constructor
      · have ho : ¬((a.banned ∧ a.toBan = b) ∧ now ≤ b.releaseAt) := by
          rintro ⟨⟨_, rfl⟩, hl⟩
          exact absurd hl (Int.not_le.mpr hr)
        split
        · rw [hi.1, or_and_right, or_iff_right ho]
        · rw [mem_bans_cons_iff, ban?_of_not_banned hn, hi.1, or_and_right, or_iff_right ho]
          simp
      · split <;> exact hi.2.trans hd
    case inr =>
      have hi := hi (w := w)
      rw [mem_bans_cons_iff, or_and_right]
      have ho : b ∈ a.ban? → now ≤ b.releaseAt := by
        rw [mem_ban?_iff]
        rintro ⟨hb', rfl⟩
        exact hb hb'
      split
      case isTrue hx =>
        have hn := not_banned_of_expired he hb hx
        simpa [ban?_of_not_banned hn] using hi
      case isFalse =>
        rw [mem_bans_cons_iff, hi.1, and_iff_left_of_imp ho]
        exact ⟨Iff.rfl, hi.2⟩

def entries (inet : Inet) (sf : Statefile) (disk : Disk) : List Ban :=
  (sf.load inet disk).map (·.toBan)

theorem bans_eq (l : List Ipaddr) : bans l = (l.filter (·.banned)).map (·.toBan) := by
  induction l
  case nil          => rfl
  case cons a as hi => cases hb : a.banned <;> simp_all [bans, Ipaddr.ban?]

theorem save_complete {β : Type} {w : World β} (hs : jail.settings.flags.hasState) (hn : jail.sfile.needSave) :
    ∃ disk, save .complete jail w = ({ jail with sfile.needSave := false }, { w with disk }) ∧
    ((jail.ipaddrs = [] ∧ disk = w.disk) ∨
      disk jail.sfile.path = some (Statefile.print jail.ipaddrs)) := by
  by_cases hl : jail.ipaddrs = []
  case pos => exact ⟨w.disk, by simp [save, hs, hn, Statefile.save, hl], .inl ⟨hl, rfl⟩⟩
  case neg =>
    refine ⟨_, by simp [save, hs, hn, Statefile.save, hl, SaveFate.complete]; rfl, .inr ?_⟩
    simp [SaveFate.keep]

theorem entries_print {sf : Statefile} {disk : Disk}
    (hd : disk sf.path = some (Statefile.print l)) (h : ∀ b ∈ bans l, b.Storable inet) :
    ∀ b, b ∈ entries inet sf disk ↔ b ∈ bans l := by
  have hs : ∀ a ∈ l, a.banned → a.toBan.Storable inet := fun a ha hb =>
    h _ (mem_bans_iff.mpr ⟨a, ha, mem_ban?_iff.mpr ⟨hb, rfl⟩⟩)
  have hm : (bans l).map Ban.stored = bans l :=
    (List.map_congr_left fun b hb => Ban.stored_eq_iff.mpr ⟨(h b hb).bannedAt, (h b hb).releaseAt⟩).trans
      (List.map_id _)
  intro b
  have := Statefile.loadText_print fun a ha hb => (hs a ha hb).valid
  simp only [entries, Statefile.load, hd, Option.elim_some]
  rw [show (fun a : Ipaddr => a.toBan) = Ipaddr.toBan from rfl, this, List.mem_reverse, ← bans_eq, hm]

-- The host is still there after a pass at `now`, even if it has no new match.
def Lasts (jail : Jail) (now : Int) (a : Ipaddr) : Prop :=
  ¬jail.expired now (eased now a)

instance (jail : Jail) (now : Int) (a : Ipaddr) : Decidable (Lasts jail now a) :=
  inferInstanceAs (Decidable ¬_)

theorem lasts_of_seen (he : 0 ≤ jail.settings.expiretime) (h : a.lastseen = now) :
    Lasts jail now a := by
  intro hx
  have hl := lastseen_eased now a
  simp only [expired, decide_eq_true_eq] at hx
  split at hx <;> omega

-- Reading lines moves hosts to the front, or makes them last longer.
theorem lasts_of_gather {filter : Filter} {feed : List (UInt32 × CString)} {jail' : Jail}
    {w' : World β} (he : 0 ≤ jail.settings.expiretime) (h : ∃ a ∈ jail.ipaddrs, Lasts jail now a)
    (hg : gather inet filter now feed jail w = .ok (jail', w')) :
    ∃ a ∈ jail'.ipaddrs, Lasts jail now a := by
  refine gather_induction (P := fun j _ => ∃ a ∈ j.ipaddrs, Lasts jail now a) ?_ hg h
  intro stag _ j v _ _ _ hc hl
  obtain ⟨_, he'⟩ | ⟨hit, p, _, _, he'⟩ := consume_ok hc
  case inl =>
    obtain ⟨rfl, _⟩ := Prod.mk.inj he'
    exact hl
  case inr =>
    obtain ⟨a, _, hn, ⟨_, _, ho, _⟩ | ⟨_, _, _, ho, _⟩⟩ := observe_eq j p now stag hit v
    all_goals
      obtain ⟨rfl, _⟩ := Prod.mk.inj (he'.trans ho)
      exact ⟨_, Place.here_mem _, lasts_of_seen he hn⟩

theorem maintain_ne_nil (h : ∃ a ∈ l, Lasts jail now a) : (maintain jail now l w).1 ≠ [] := by
  induction l generalizing w
  case nil          => simp at h
  case cons a as hi =>
    simp only [maintain]
    split
    case isFalse => simp
    case isTrue hx =>
      have hn : ¬Lasts jail now a := fun hl => hl (release_fst jail now a w ▸ hx)
      obtain ⟨b, hb, hl⟩ := h
      obtain rfl | hb := List.mem_cons.mp hb
      case inl => exact absurd hl hn
      case inr => exact hi ⟨b, hb, hl⟩

structure Stored (inet : Inet) (clock : Int) (jail : Jail) (disk : Disk) : Prop where
  storable : ∀ b ∈ bans jail.ipaddrs, b.Storable inet
  exact    : ¬jail.sfile.needSave → ∀ b,
    (b ∈ entries inet jail.sfile disk ∧ clock ≤ b.releaseAt) ↔ b ∈ bans jail.ipaddrs

-- Each ban of the file that is not over at `now` is held by the jail.
def Held (inet : Inet) (now : Int) (jail : Jail) (disk : Disk) : Prop :=
  ∀ b ∈ entries inet jail.sfile disk, now ≤ b.releaseAt → b ∈ bans jail.ipaddrs

instance (disk : Disk) : Decidable (Held inet now jail disk) :=
  inferInstanceAs (Decidable (∀ b ∈ _, _))

theorem Stored.held {disk : Disk} {clock : Int} (h : Stored inet clock jail disk) (hn : ¬jail.sfile.needSave)
    (hc : clock ≤ now) : Held inet now jail disk :=
  fun b hm hr => (h.exact hn b).mp ⟨hm, hc.trans hr⟩

theorem mem_bans_tidy_iff (he : 0 ≤ jail.settings.expiretime) :
    b ∈ bans (tidy now jail w).1.ipaddrs ↔ b ∈ bans jail.ipaddrs ∧ now ≤ b.releaseAt :=
  (mem_bans_maintain_iff he).1

-- A complete save makes the file exact, but for an empty list: that leaves the file as it is.
theorem Stored.save {β : Type} {w : World β} (hs : jail.settings.flags.hasState)
    (hb : ∀ b ∈ bans jail.ipaddrs, b.Storable inet ∧ now ≤ b.releaseAt)
    (hx : ¬jail.sfile.needSave → ∀ b,
      (b ∈ entries inet jail.sfile w.disk ∧ now ≤ b.releaseAt) ↔ b ∈ bans jail.ipaddrs)
    (he : jail.ipaddrs = [] → ∀ b ∈ entries inet jail.sfile w.disk, ¬now ≤ b.releaseAt) :
    Stored inet now (save .complete jail w).1 (save .complete jail w).2.disk := by
  cases hn : jail.sfile.needSave
  case false =>
    have : Jail.save .complete jail w = (jail, w) := by simp [Jail.save, hn]
    exact this ▸ ⟨fun b h => (hb b h).1, hx⟩
  case true =>
    obtain ⟨disk, hd, ⟨hl, rfl⟩ | hd'⟩ := save_complete (w := w) hs hn <;> rw [hd]
    case inl =>
      refine ⟨fun b h => (hb b h).1, fun _ b => ?_⟩
      have hne : b ∉ bans jail.ipaddrs := by simp [hl, bans]
      exact iff_of_false (fun h => he hl b h.1 h.2) hne
    case inr =>
      have hp := entries_print hd' fun b h => (hb b h).1
      refine ⟨fun b h => (hb b h).1, fun _ b => ?_⟩
      exact (and_congr_left' (hp b)).trans (and_iff_left_of_imp fun h => (hb b h).2)

section Process

variable {filter : Filter} {feed : List (UInt32 × CString)} {jail' : Jail} {w' : World β} {clock : Int}

-- A pass that saves, and finds a host or nothing that the file should hold, leaves the file exact.
theorem Stored.process (h : Stored inet clock jail w.disk)
    (hs : jail.settings.flags.hasState) (he : 0 ≤ jail.settings.expiretime) (hc : clock ≤ now)
    (hn : Fits now) (hf : ∀ n ∈ Jail.counts jail.ipaddrs, Fits (now + jail.settings.banLength n))
    (hl : jail.sfile.needSave → (∃ a ∈ jail.ipaddrs, Lasts jail now a) ∨ Held inet now jail w.disk)
    (hp : process inet filter now feed .complete jail w = .ok (jail', w'))
    (hv : AllValid inet jail'.ipaddrs) : Stored inet now jail' w'.disk := by
  obtain ⟨jail₁, w₁, hg, hr⟩ := process_ok hp
  have hG := gathered_of_gather hs hg
  have hF := gather_frame hg
  have he₁ : 0 ≤ jail₁.settings.expiretime := hF.settings ▸ he
  have hd : (tidy now jail₁ w₁).2.disk = w.disk :=
    (mem_bans_maintain_iff (b := ⟨[], 0, 0⟩) he₁).2.trans hF.disk
  have ht (b : Ban) : b ∈ bans (tidy now jail₁ w₁).1.ipaddrs ↔ b ∈ bans jail₁.ipaddrs ∧ now ≤ b.releaseAt :=
    mem_bans_tidy_iff he₁
  have hE : entries inet (tidy now jail₁ w₁).1.sfile (tidy now jail₁ w₁).2.disk =
      entries inet jail.sfile w.disk := by
    simp only [entries, Statefile.load, hd, (tidy_frame now jail₁ w₁).2.2, hF.path]
  have hi : jail'.ipaddrs = (tidy now jail₁ w₁).1.ipaddrs := by
    have := save_view .complete (tidy now jail₁ w₁).1 (tidy now jail₁ w₁).2
    rw [← hr] at this
    exact (Prod.mk.inj this).1
  have hS : Stored inet now (Jail.save .complete (tidy now jail₁ w₁).1 (tidy now jail₁ w₁).2).1
      (Jail.save .complete (tidy now jail₁ w₁).1 (tidy now jail₁ w₁).2).2.disk := by
    refine .save (hF.settings ▸ hs) (fun b hb => ?_) (fun hn => ?_) fun hl' => ?_
    case refine_1 =>
      obtain ⟨hb₁, hr⟩ := (ht b).mp hb
      refine ⟨?_, hr⟩
      obtain hb₀ | ⟨_, ha, n, hm, hr⟩ := hG.bans b hb₁
      case inl => exact h.storable b hb₀
      case inr =>
        obtain ⟨a, ha', hb'⟩ := mem_bans_iff.mp hb
        obtain ⟨_, rfl⟩ := mem_ban?_iff.mp hb'
        exact ⟨hv _ (Addrlist.mem_texts_iff.mpr ⟨a, hi ▸ ha', rfl⟩), ha ▸ hn, hr ▸ hf n hm⟩
    case refine_2 =>
      intro b
      have hn₁ : ¬jail₁.sfile.needSave := hn
      have hn₀ : ¬jail.sfile.needSave := fun h => hn₁ (hG.needSave h)
      rw [hE, ht, hG.mem_bans_iff hn₁, ← h.exact hn₀ b]
      have : now ≤ b.releaseAt → clock ≤ b.releaseAt := hc.trans
      tauto
    case refine_3 =>
      rw [hE]
      have hl : (∃ a ∈ jail.ipaddrs, Lasts jail now a) ∨ Held inet now jail w.disk := by
        by_cases hn₀ : jail.sfile.needSave
        case pos => exact hl hn₀
        case neg => exact .inr (h.held hn₀ hc)
      obtain hl | hl := hl
      case inl =>
        obtain ⟨a, ha, hl⟩ := lasts_of_gather he hl hg
        exact absurd hl' (maintain_ne_nil ⟨a, ha, by simpa only [Lasts, expired, hF.settings] using hl⟩)
      case inr =>
        intro b hm hr
        have := (ht b).mpr ⟨hG.keeps b (hl b hm hr), hr⟩
        simp [hl', bans] at this
  rw [← hr] at hS
  exact hS

end Process

section Commands

variable {status : Ipaddr → CString} {ressize : Nat} {op : Int} {disk : Disk} {clock : Int} {ip : CString}

-- A change of one record keeps the file exact if it is none to the bans, or a save is due.
theorem Stored.set {a' : Ipaddr} (h : Stored inet clock { jail with ipaddrs := p.list } disk)
    (hc : a'.ban? = p.here.ban? ∨ (jail.sfile.needSave ∧ ∀ b ∈ a'.ban?, b.Storable inet)) :
    Stored inet clock { jail with ipaddrs := (p.set a').list } disk := by
  obtain he | ⟨hn, hb⟩ := hc
  case inl =>
    have hm : ∀ b, b ∈ bans (p.set a').list ↔ b ∈ bans p.list := fun b => by
      simp only [mem_bans_place_iff, Place.here_set, he, Place.before_set, Place.after_set]
    exact ⟨fun b h' => h.storable b ((hm b).mp h'), fun hn b => (h.exact hn b).trans (hm b).symm⟩
  case inr =>
    refine ⟨fun b h' => ?_, fun h' => absurd hn h'⟩
    obtain h' | h' := mem_bans_place_iff.mp h'
    case inl => exact hb b h'
    case inr => exact h.storable b (mem_bans_place_iff.mpr (.inr h'))

-- What a command makes of the record of a host.
def commanded (s : Settings) (op : Int) (a : Ipaddr) : Ipaddr :=
  if op = 0 then a else if op > 0 then banned s a else released a

theorem Stored.operate (h : Stored inet clock { jail with ipaddrs := p.list } w.disk)
    (hl : op = 0 → jail.ipaddrs = p.list)
    (hc : (commanded jail.settings op p.here).ban? = p.here.ban? ∨ (jail.sfile.needSave ∧
      ∀ b ∈ (commanded jail.settings op p.here).ban?, b.Storable inet)) :
    Stored inet clock (operate status ressize op jail p w).2.1
      (Jail.operate status ressize op jail p w).2.2.disk := by
  have hs := h.set hc
  obtain ⟨_, ⟨h0, he⟩ | ⟨hp, w', he, _, hd⟩ | ⟨hn, w', he, _, hd⟩⟩ :=
    operate_eq status ressize op jail p w
  all_goals rw [he]
  case inl     => exact ⟨hl h0 ▸ h.storable, hl h0 ▸ h.exact⟩
  case inr.inl =>
    rw [commanded, if_neg (by omega), if_pos hp] at hs
    exact ⟨hs.storable, hd ▸ hs.exact⟩
  case inr.inr =>
    rw [commanded, if_neg (by omega), if_neg (by omega)] at hs
    exact ⟨hs.storable, hd ▸ hs.exact⟩

-- The commands that the state file keeps up with.
def Followed (jail : Jail) (op now : Int) (ip : CString) : Prop :=
  match Addrlist.lookup jail.ipaddrs ip with
  | some p => (commanded jail.settings op p.here).ban? = p.here.ban? ∨ (jail.sfile.needSave ∧
      ∀ b ∈ (commanded jail.settings op p.here).ban?, Fits b.bannedAt ∧ Fits b.releaseAt)
  | none   => op > 0 → Fits now ∧ Fits (now + jail.settings.banLength 0)

instance (jail : Jail) (op now : Int) (ip : CString) : Decidable (jail.Followed op now ip) := by
  unfold Followed
  cases Addrlist.lookup jail.ipaddrs ip <;> exact inferInstance

theorem text_of_mem_ban?_commanded {s : Settings} (h : b ∈ (commanded s op a).ban?) :
    b.text = a.text := by
  obtain ⟨_, rfl⟩ := mem_ban?_iff.mp h
  simp only [commanded]
  split
  · rfl
  · split <;> rfl

theorem Stored.cmdIp (status : Ipaddr → CString) (ressize : Nat) (h : Stored inet clock jail w.disk)
    (hs : jail.settings.flags.hasState) (hv : AllValid inet jail.ipaddrs) (hf : jail.Followed op now ip) :
    Stored inet clock (cmdIp inet status ressize op now ip jail w).2.1
      (Jail.cmdIp inet status ressize op now ip jail w).2.2.disk := by
  obtain ⟨_, he⟩ | ⟨p, hl, he⟩ | ⟨hp, hl, new, _, hn, he⟩ :=
    cmdIp_eq inet status ressize op now jail ip w
  all_goals rw [he]
  case inl => exact h
  case inr.inl =>
    have hp := Addrlist.lookup_list hl
    simp only [Followed, hl] at hf
    have hop : Stored inet clock { jail with ipaddrs := p.list } w.disk := by
      rw [hp]
      exact ⟨h.storable, h.exact⟩
    refine hop.operate (fun _ => hp.symm) (hf.imp_right fun ⟨hn, hb⟩ => ⟨hn, fun b hb' => ?_⟩)
    refine ⟨?_, (hb b hb').1, (hb b hb').2⟩
    rw [text_of_mem_ban?_commanded hb']
    exact hv _ (Addrlist.mem_texts_iff.mpr ⟨_, hp ▸ p.here_mem, rfl⟩)
  case inr.inr =>
    simp only [Followed, hl] at hf
    have ⟨hf₁, hf₂⟩ := hf hp
    obtain ⟨_, _, rfl⟩ := Ipaddr.create_eq hn
    refine Stored.operate ?_ (fun h0 => absurd h0 (by omega)) (.inr ⟨by simp [hs], fun b hb => ?_⟩)
    · refine ⟨fun b hb => h.storable b ?_, fun hn' => absurd hs fun hs => by simp [hs] at hn'⟩
      simpa [mem_bans_place_iff, Ipaddr.ban?, fresh] using hb
    · rw [commanded, if_neg (by omega), if_pos hp] at hb
      obtain ⟨_, rfl⟩ := mem_ban?_iff.mp hb
      exact ⟨Ipaddr.valid_of_create hn, hf₁, hf₂⟩

theorem hasState_of_setParam {atof : CString → Rat} {s s' : Settings} {param value : CString}
    (h : s.setParam atof param value = some s') : s'.flags.hasState = s.flags.hasState := by
  have hp := Settings.applyParam_of_setParam h
  obtain ⟨k, hk, he⟩ | ⟨_, he⟩ := Settings.applyParam_cases atof s ⟨param, value⟩ <;>
    rw [← hp, he]
  cases k
  case state =>
    obtain rfl : param = _ := hk
    cases h
  all_goals rfl

end Commands

theorem ban?_lapse (h : a.banned) (hr : a.releaseAt ≠ now) :
    b ∈ (lapse now a).ban? ↔ b = a.toBan ∧ now ≤ b.releaseAt := by
  simp only [lapse, h, Bool.true_and]
  split
  case isTrue hl =>
    have hl : a.releaseAt ≤ now := by simpa using hl
    rw [ban?_of_not_banned (by simp)]
    refine ⟨fun h => by simp at h, ?_⟩
    rintro ⟨rfl, hn : now ≤ a.releaseAt⟩
    omega
  case isFalse hl =>
    have hl : now < a.releaseAt := by simpa using hl
    rw [mem_ban?_iff]
    constructor
    · rintro ⟨_, rfl⟩
      exact ⟨rfl, Int.le_of_lt hl⟩
    · rintro ⟨rfl, _⟩
      exact ⟨h, rfl⟩

end Jail

namespace System

variable {β : Type} [Backend β] {env : Env} {s s' : System β} {op : Op}

-- What the state file keeps up with: times that it can hold, saves that go well, changes that leave
-- no ban behind in it.
def Safe (env : Env) (s : System β) : Op → Prop
  | .start params now      => ∀ a ∈ loaded env params s, a.releaseAt ≠ now
  | .process _ now _ fate  =>
    s.clock ≤ now ∧ fate = .complete ∧ Fits now ∧
    (∀ n ∈ Jail.counts s.jail.ipaddrs, Fits (now + s.jail.settings.banLength n)) ∧
    (s.jail.sfile.needSave →
      (∃ a ∈ s.jail.ipaddrs, s.jail.Lasts now a) ∨ s.jail.Held env.inet now s.world.disk)
  | .ip now op ip          => s.jail.Followed op now ip
  | .set _ _               => True
  | .stop _                => True

instance (env : Env) (s : System β) : (op : Op) → Decidable (s.Safe env op)
  | .start params now     => inferInstanceAs (Decidable (∀ a ∈ loaded env params s, a.releaseAt ≠ now))
  | .process _ now _ fate => inferInstanceAs (Decidable (s.clock ≤ now ∧ fate = .complete ∧ Fits now ∧
    (∀ n ∈ Jail.counts s.jail.ipaddrs, Fits (now + s.jail.settings.banLength n)) ∧
    (s.jail.sfile.needSave →
      (∃ a ∈ s.jail.ipaddrs, s.jail.Lasts now a) ∨ s.jail.Held env.inet now s.world.disk)))
  | .ip now op ip         => inferInstanceAs (Decidable (s.jail.Followed op now ip))
  | .set _ _              => .isTrue trivial
  | .stop _               => .isTrue trivial

structure Saved (env : Env) (s : System β) : Prop where
  wellformed : s.Wellformed env
  stored     : s.up → s.jail.settings.flags.hasState →
    s.jail.Stored env.inet s.clock s.world.disk

theorem Starts.stored {params : List Config.Param} {now : Int} (st : Starts env params now s s')
    (hs : s'.jail.settings.flags.hasState) (h : ∀ a ∈ loaded env params s, a.releaseAt ≠ now) :
    s'.jail.Stored env.inet now s'.world.disk := by
  have hl : loaded env params s = s'.jail.sfile.load env.inet s'.world.disk := by
    have hs : (s.boot env params).1.settings.flags.hasState := st.settings ▸ hs
    simp only [loaded, hs, if_true, st.sfile, st.disk]
  have hb : ∀ a ∈ loaded env params s, a.banned ∧ a.toBan.Storable env.inet := fun a ha =>
    Statefile.storable_of_mem_load (hl ▸ ha)
  have hm : ∀ b, b ∈ Jail.bans s'.jail.ipaddrs ↔
      ∃ a ∈ loaded env params s, b = a.toBan ∧ now ≤ b.releaseAt := fun b => by
    rw [st.ipaddrs, Jail.mem_bans_iff]
    simp only [List.mem_map, exists_exists_and_eq_and]
    exact exists_congr fun a => and_congr_right fun ha => Jail.ban?_lapse (hb a ha).1 (h a ha)
  refine ⟨fun b hb' => ?_, fun _ b => ?_⟩
  · obtain ⟨a, ha, rfl, _⟩ := (hm b).mp hb'
    exact (hb a ha).2
  · rw [hm, Jail.entries, ← hl, List.mem_map]
    grind

theorem Saved.step (h : s.Step env op s') (hg : s.Safe env op) (hs : s.Saved env) : s'.Saved env := by
  have hw := hs.wellformed.step h
  refine ⟨hw, fun hu hf => ?_⟩
  cases op
  case start params now => exact (start_eq h).clock ▸ (start_eq h).stored hf hg
  case stop             => simp [(stop_eq h).down] at hu
  case process =>
    have ⟨hu', _, hc, hp⟩ := process_eq h
    have hf : s.jail.settings.flags.hasState := Jail.process_settings hp ▸ hf
    have ⟨hc', hfate, hn, hl, hx⟩ := hg
    have hr := (hs.wellformed hu').1
    rw [hfate] at hp
    exact hc ▸ (hs.stored hu' hf).process hf (Int.le_of_lt hr.expiretime) hc' hn hl hx hp (hw hu).2
  case ip now o ip =>
    have ⟨hu', _, hc, _, hp⟩ := ip_eq h
    have he := Jail.cmdIp_settings env.inet env.status env.ressize o now ip s.jail s.world
    rw [hp] at he
    have hf : s.jail.settings.flags.hasState := he ▸ hf
    have hst := (hs.stored hu' hf).cmdIp env.status env.ressize hf (hs.wellformed hu').2 hg
    rw [hp] at hst
    exact hc ▸ hst
  case set =>
    have ⟨hu', _, hc, hd, t, hj, ht⟩ := set_eq h
    have hf : s.jail.settings.flags.hasState := by
      rw [hj] at hf
      obtain rfl | ht := ht
      · exact hf
      · exact Jail.hasState_of_setParam ht ▸ hf
    have ⟨h₁, h₂⟩ := hs.stored hu' hf
    rw [hc, hd, hj]
    exact ⟨h₁, h₂⟩

-- In every run whose operations the state file keeps up with, while no save is due, the entries that
-- are not over are the bans of the jail.
theorem saved_iff_banned
    (h : Transition.Reachable (·.up = false) (Transition.Guarded (Step env) (Safe env)) s)
    (hu : s.up) (hf : s.jail.settings.flags.hasState) (hn : ¬s.jail.sfile.needSave) (b : Ban) :
    (b ∈ Jail.entries env.inet s.jail.sfile s.world.disk ∧ s.clock ≤ b.releaseAt) ↔
      b ∈ Jail.bans s.jail.ipaddrs := by
  have hs : s.Saved env := h.invariant
    (fun s hd => ⟨fun hu => by simp [hd] at hu, fun hu => by simp [hd] at hu⟩)
    fun _ _ _ hs hc => hc.step hs.1 hs.2
  exact (hs.stored hu hf).exact hn b

section Example

def savingOps : List Op := [
  .start (sshParams ++ [⟨"state".toList, "yes".toList⟩]) 1000,
  .ip 1010 1 "192.0.2.7".toList,
  .process (fun _ => .ok none) 1020 [] .complete]

def savingRun : Option (System Blocklist) :=
  Transition.replay (fun s op => if s.Safe quadEnv op then s.step quadEnv op else none)
    (.new "ssh".toList ⟨⟨[], [], []⟩, [], fun _ => none⟩) savingOps

theorem saved_iff_banned_after_ban :
    ∃ s, savingRun = some s ∧ s.jail.settings.flags.hasState ∧ ¬s.jail.sfile.needSave ∧
    ∀ b, (b ∈ Jail.entries quadEnv.inet s.jail.sfile s.world.disk ∧ s.clock ≤ b.releaseAt) ↔
      b ∈ Jail.bans s.jail.ipaddrs := by
  have hr := (Option.some_get (show savingRun.isSome by decide)).symm
  exact ⟨_, hr, by decide, by decide,
    saved_iff_banned ⟨_, _, rfl, .of_replay_guarded hr⟩ (by decide) (by decide) (by decide)⟩

-- The release by command is not saved, and the next start would ban the host again.
theorem released_but_saved :
    ∃ s : System Blocklist, Transition.Reachable (·.up = false) (Step quadEnv) s ∧ s.up ∧
    s.jail.settings.flags.hasState ∧ ¬s.jail.sfile.needSave ∧
    ¬∀ b, (b ∈ Jail.entries quadEnv.inet s.jail.sfile s.world.disk ∧ s.clock ≤ b.releaseAt) ↔
      b ∈ Jail.bans s.jail.ipaddrs := by
  refine ⟨(sshRun [] (savingOps ++ [.ip 1030 (-1) "192.0.2.7".toList])).get (by decide),
    ⟨_, _, rfl, .of_replay (Option.some_get _).symm⟩, by decide, by decide, by decide, fun h => ?_⟩
  have := h ⟨"192.0.2.7".toList, 1010, 4610⟩
  revert this
  decide

end Example

end System
end F2b
