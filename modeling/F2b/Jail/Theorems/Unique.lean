import F2b.Jail.Theorems.Blocking
import F2b.Jail.Theorems.Pass

-- One record for each address, however it is written.

namespace F2b

variable {β : Type} [Backend β] {inet : Inet}

namespace Ipaddr

-- What a record stands for.
def key (a : Ipaddr) : AddrFamily × List UInt8 :=
  (a.type, a.binary)

-- The address that a text denotes, none if it is not valid.
def denotes (inet : Inet) (text : CString) : Option (AddrFamily × List UInt8) :=
  (inet.pton (family text) text).map (family text, ·)

theorem denotes_create {addr : CString} {a : Ipaddr} (h : create inet addr = some a) :
    denotes inet a.text = some a.key := by
  obtain ⟨binary, hb, rfl⟩ := create_eq h
  simp [denotes, key, hb]

end Ipaddr

namespace Jail

variable {jail jail' : Jail} {w w' : World β} {x y : List Ipaddr × β}

-- The texts of the records denote what the records stand for.
def Genuine (inet : Inet) (l : List Ipaddr) : Prop :=
  ∀ a ∈ l, Ipaddr.denotes inet a.text = some a.key

theorem Genuine.set {p : Place Ipaddr} {a : Ipaddr} (h : Genuine inet p.list) (ht : a.text = p.here.text)
    (hk : a.key = p.here.key) : Genuine inet (p.set a).list := by
  have ⟨hp, ho⟩ := p.forall_mem_iff.mp h
  exact (p.set a).forall_mem_iff.mpr ⟨by rw [Place.here_set, ht, hk, hp], ho⟩

theorem Genuine.move (m : Move inet x y) (h : Genuine inet x.1) : Genuine inet y.1 := by
  cases m
  case ping         => exact h
  case create hc _  => exact List.forall_mem_cons.mpr ⟨Ipaddr.denotes_create hc, h⟩
  case touch a ht   => exact h.set ht.text (by rw [Ipaddr.key, ht.type, ht.binary, Ipaddr.key])
  case ban s        => exact h.set rfl rfl
  case unban        => exact h.set rfl rfl
  case forget p _ _ => exact (p.forall_mem_iff.mp h).2

-- Records that denote the same address are the same, if each address has one spelling.
theorem nodup_keys {l : List Ipaddr} (hg : Genuine inet l) (hn : (Addrlist.texts l).Nodup)
    (hs : ∀ t ∈ Addrlist.texts l, ∀ t' ∈ Addrlist.texts l,
      Ipaddr.denotes inet t = Ipaddr.denotes inet t' → t = t') : (l.map Ipaddr.key).Nodup := by
  apply List.pairwise_map.mpr
  refine (List.pairwise_map.mp hn).imp_of_mem fun {a b} ha hb hne hk => hne ?_
  apply hs _ (Addrlist.mem_texts_iff.mpr ⟨a, ha, rfl⟩) _ (Addrlist.mem_texts_iff.mpr ⟨b, hb, rfl⟩)
  rw [hg a ha, hg b hb, hk]

theorem texts_gather {filter : Filter} {now : Int} {feed : List (UInt32 × CString)}
    (h : gather inet filter now feed jail w = .ok (jail', w')) :
    ∀ t ∈ Addrlist.texts jail'.ipaddrs, t ∈ Addrlist.texts jail.ipaddrs ∨ Captured filter feed jail t := by
  have hi : Frame jail w jail' w' ∧ ∀ t ∈ Addrlist.texts jail'.ipaddrs,
      t ∈ Addrlist.texts jail.ipaddrs ∨ Captured filter feed jail t := by
    refine gather_induction (P := fun j v => Frame jail w j v ∧ ∀ t ∈ Addrlist.texts j.ipaddrs,
      t ∈ Addrlist.texts jail.ipaddrs ∨ Captured filter feed jail t) ?_ h ⟨⟨rfl, rfl, rfl, rfl⟩, fun _ => .inl⟩
    intro stag line j v j' v' hl hc ⟨hf, ht⟩
    refine ⟨hf.trans (consume_frame hc), fun t hm => ?_⟩
    obtain ⟨_, he⟩ | ⟨hit, p, hcap, hp, he⟩ := consume_ok hc
    case inl =>
      obtain ⟨rfl, _⟩ := Prod.mk.inj he
      exact ht t hm
    case inr =>
      have hp' : Addrlist.texts j'.ipaddrs = Addrlist.texts p.list := by
        obtain ⟨a, ha, _, ⟨_, _, ho, _⟩ | ⟨_, _, _, ho, _⟩⟩ := observe_eq j p now stag hit v
        all_goals obtain ⟨rfl, _⟩ := Prod.mk.inj (he.trans ho)
        case inl => exact Addrlist.texts_set ha.text
        case inr => exact Addrlist.texts_set ha.text
      rw [hp'] at hm
      obtain hk | ⟨new, hn, _, rfl⟩ := track_ok hp
      case inl => exact ht t (Addrlist.lookup_list hk ▸ hm)
      case inr =>
        obtain rfl | hm := List.mem_cons.mp hm
        case inl =>
          exact .inr ⟨line, hl, hit, capture_settings hf.settings filter line ▸ hcap,
            (Ipaddr.text_create hn).symm⟩
        case inr => exact ht t hm
  exact hi.2

theorem texts_process {filter : Filter} {now : Int} {feed : List (UInt32 × CString)} {fate : SaveFate}
    (h : process inet filter now feed fate jail w = .ok (jail', w')) :
    ∀ t ∈ Addrlist.texts jail'.ipaddrs, t ∈ Addrlist.texts jail.ipaddrs ∨ Captured filter feed jail t := by
  have ⟨jail₁, w₁, hg, hl⟩ := process_hosts h
  intro t ht
  obtain ⟨a, ha, rfl⟩ := Addrlist.mem_texts_iff.mp ht
  obtain ⟨b, hb, rfl⟩ := List.mem_map.mp (List.mem_filter.mp (hl ▸ ha)).1
  apply texts_gather hg
  exact Addrlist.mem_texts_iff.mpr ⟨b, hb, (text_eased now b).symm⟩

theorem texts_cmdIp {status : Ipaddr → CString} {ressize : Nat} {op now : Int} {ip reply : CString}
    (h : cmdIp inet status ressize op now ip jail w = (reply, jail', w')) :
    ∀ t ∈ Addrlist.texts jail'.ipaddrs, t ∈ Addrlist.texts jail.ipaddrs ∨ ip = t := by
  have ho (j : Jail) (p : Place Ipaddr) (hj : op = 0 → j.ipaddrs = p.list) :
      Addrlist.texts (operate status ressize op j p w).2.1.ipaddrs = Addrlist.texts p.list := by
    obtain ⟨_, ⟨h0, he⟩ | ⟨_, _, he, _⟩ | ⟨_, _, he, _⟩⟩ := operate_eq status ressize op j p w <;> rw [he]
    case inl     => exact congrArg _ (hj h0)
    case inr.inl => exact Addrlist.texts_set rfl
    case inr.inr => exact Addrlist.texts_set rfl
  obtain ⟨_, he⟩ | ⟨p, hl, he⟩ | ⟨hp, hl, new, stats, hn, he⟩ :=
    cmdIp_eq inet status ressize op now jail ip w
  all_goals
    obtain rfl : jail' = _ := congrArg (·.2.1) (h.symm.trans he)
    intro t ht
  case inl     => exact .inl ht
  case inr.inl =>
    have hl := Addrlist.lookup_list hl
    rw [ho jail p fun _ => hl.symm, hl] at ht
    exact .inl ht
  case inr.inr =>
    rw [ho _ _ fun h0 => absurd h0 (by omega)] at ht
    obtain rfl | ht := List.mem_cons.mp ht
    case inl => exact .inr (Ipaddr.text_create hn).symm
    case inr => exact .inl ht

-- Each address that is tracked or named is written in one way.
def Spelled (inet : Inet) (l : List Ipaddr) (named : CString → Prop) : Prop :=
  ∀ t t', (t ∈ Addrlist.texts l ∨ named t) → (t' ∈ Addrlist.texts l ∨ named t') →
    (Ipaddr.denotes inet t).isSome → Ipaddr.denotes inet t = Ipaddr.denotes inet t' → t = t'

-- Over the one address that a command names the spellings can be compared.
theorem spelled_iff {l : List Ipaddr} {ip : CString} :
    Spelled inet l (ip = ·) ↔ ∀ t ∈ ip :: Addrlist.texts l, ∀ t' ∈ ip :: Addrlist.texts l,
      (Ipaddr.denotes inet t).isSome → Ipaddr.denotes inet t = Ipaddr.denotes inet t' → t = t' := by
  have hm (t : CString) : (t ∈ Addrlist.texts l ∨ ip = t) ↔ t ∈ ip :: Addrlist.texts l := by
    rw [List.mem_cons, or_comm, eq_comm]
  constructor
  case mp  => exact fun hs t ht t' ht' => hs t t' ((hm t).mpr ht) ((hm t').mpr ht')
  case mpr => exact fun hs t t' ht ht' => hs t ((hm t).mp ht) t' ((hm t').mp ht')

-- No two records of the list are for the same address.
structure Unique (inet : Inet) (l : List Ipaddr) : Prop where
  genuine : Genuine inet l
  texts   : (Addrlist.texts l).Nodup
  keys    : (l.map Ipaddr.key).Nodup

variable {l l' : List Ipaddr}

theorem Genuine.isSome (h : Genuine inet l) : ∀ t ∈ Addrlist.texts l, (Ipaddr.denotes inet t).isSome := by
  intro t ht
  obtain ⟨a, ha, rfl⟩ := Addrlist.mem_texts_iff.mp ht
  rw [h a ha]
  rfl

theorem Unique.of_genuine (hg : Genuine inet l) (hk : (l.map Ipaddr.key).Nodup) : Unique inet l := by
  refine ⟨hg, List.pairwise_map.mpr ?_, hk⟩
  refine (List.pairwise_map.mp hk).imp_of_mem fun {a b} ha hb hne ht => hne ?_
  have he := hg a ha
  rw [ht, hg b hb] at he
  exact (Option.some.inj he).symm

theorem Genuine.length_lt (h : Genuine inet l) : ∀ a ∈ l, a.text.length < IPADDR_MAX := by
  intro a ha
  have hv : Ipaddr.Valid inet a.text := by
    have := h.isSome a.text (Addrlist.mem_texts_iff.mpr ⟨a, ha, rfl⟩)
    simpa [Ipaddr.Valid, Ipaddr.denotes] using this
  exact hv.length_lt

theorem Unique.moves {named : CString → Prop} (h : Unique inet x.1) (m : Moves inet x y)
    (hs : Spelled inet x.1 named) (ht : ∀ t ∈ Addrlist.texts y.1, t ∈ Addrlist.texts x.1 ∨ named t) :
    Unique inet y.1 := by
  have ⟨hg, hn⟩ : Genuine inet y.1 ∧ (Addrlist.texts y.1).Nodup :=
    m.invariant (P := fun x => Genuine inet x.1 ∧ (Addrlist.texts x.1).Nodup)
      (fun _ _ m h => ⟨h.1.move m, m.nodup h.2⟩) ⟨h.genuine, h.texts⟩
  exact ⟨hg, hn, nodup_keys hg hn fun t hm t' hm' => hs t t' (ht t hm) (ht t' hm') (hg.isSome t hm)⟩

-- A lookup of an address finds its record, whatever its spelling, if and only if there is only the one
-- spelling.
theorem Unique.lookup_iff (h : Unique inet l) (ip : CString) :
    (∀ a ∈ l, Ipaddr.denotes inet ip = some a.key →
      ∃ p, Addrlist.lookup l ip = some p ∧ p.here = a) ↔ Spelled inet l (ip = ·) := by
  have hl := h.genuine.length_lt
  constructor
  case mp =>
    intro hf
    have hip : ∀ t ∈ Addrlist.texts l, Ipaddr.denotes inet t = Ipaddr.denotes inet ip → t = ip := by
      intro t ht he
      obtain ⟨a, ha, rfl⟩ := Addrlist.mem_texts_iff.mp ht
      obtain ⟨p, hp, rfl⟩ := hf a ha (he ▸ h.genuine a ha)
      exact Addrlist.lookup_text hp hl
    rintro t t' (ht | rfl) (ht' | rfl) _ he
    · obtain ⟨a, ha, rfl⟩ := Addrlist.mem_texts_iff.mp ht
      obtain ⟨b, hb, rfl⟩ := Addrlist.mem_texts_iff.mp ht'
      rw [h.genuine a ha, h.genuine b hb] at he
      rw [List.inj_on_of_nodup_map h.keys ha hb (Option.some.inj he)]
    · exact hip t ht he
    · exact (hip t' ht' he.symm).symm
    · rfl
  case mpr =>
    intro hs a ha he
    have hm := Addrlist.mem_texts_iff.mpr ⟨a, ha, rfl⟩
    have ht : a.text = ip :=
      hs a.text ip (.inl hm) (.inr rfl) (h.genuine.isSome _ hm) ((h.genuine a ha).trans he.symm)
    cases hp : Addrlist.lookup l ip
    case none   => exact absurd ht (Addrlist.text_ne_of_lookup hp ha)
    case some p =>
      have hm : p.here ∈ l := Addrlist.lookup_list hp ▸ p.here_mem
      exact ⟨p, rfl, List.inj_on_of_nodup_map h.texts hm ha ((Addrlist.lookup_text hp hl).trans ht.symm)⟩

end Jail

namespace System

variable {env : Env} {s s' : System β} {op : Op}

-- The addresses that an operation names are written as they are tracked, and each in one way; a state
-- file that is loaded holds no address twice.
def OneSpelling (env : Env) (s : System β) : Op → Prop
  | .start params _           => ((loaded env params s).map Ipaddr.key).Nodup
  | .process filter _ feed _  => Jail.Spelled env.inet s.jail.ipaddrs (Jail.Captured filter feed s.jail)
  | .ip _ _ ip                => Jail.Spelled env.inet s.jail.ipaddrs (ip = ·)
  | .set ..                   => True
  | .stop _                   => True

omit [Backend β] in
theorem genuine_loaded (env : Env) (params : List Config.Param) (s : System β) :
    Jail.Genuine env.inet (loaded env params s) := by
  intro a ha
  simp only [loaded] at ha
  split at ha
  case isFalse => simp at ha
  case isTrue  =>
    obtain ⟨_, hp⟩ := Statefile.exists_parse_of_mem_load ha
    obtain ⟨_, _, _, _, hn, _, _, rfl⟩ := Statefile.parse_eq hp
    have hd := Ipaddr.denotes_create hn
    exact hd

structure Tracks (env : Env) (s : System β) : Prop where
  running : s.up → s.jail.settings.Running
  unique  : s.up → Jail.Unique env.inet s.jail.ipaddrs

theorem Tracks.step (h : s.Step env op s') (hg : s.OneSpelling env op) (ht : s.Tracks env) : s'.Tracks env := by
  cases op
  case start params now =>
    have st := start_eq h
    have hg' : Jail.Genuine env.inet ((loaded env params s).map (Jail.lapse now)) := by
      intro a ha
      obtain ⟨b, hb, rfl⟩ := List.mem_map.mp ha
      have := genuine_loaded env params s b hb
      simp only [Jail.lapse]
      split <;> exact this
    have hk : ((loaded env params s).map (Jail.lapse now)).map Ipaddr.key =
        (loaded env params s).map Ipaddr.key := by
      rw [List.map_map]
      refine List.map_congr_left fun a _ => ?_
      simp only [Function.comp, Jail.lapse]
      split <;> rfl
    exact ⟨fun _ => st.running, fun _ => st.ipaddrs ▸ .of_genuine hg' (hk ▸ hg)⟩
  case stop =>
    have st := stop_eq h
    exact ⟨fun hu => by simp [st.down] at hu, fun hu => by simp [st.down] at hu⟩
  case process =>
    obtain ⟨hu, _, _, hp⟩ := process_eq h
    have hr := ht.running hu
    have hm := Jail.process_moves (Int.le_of_lt hr.expiretime) hp
    exact ⟨fun _ => Jail.process_settings hp ▸ hr, fun _ => (ht.unique hu).moves hm hg (Jail.texts_process hp)⟩
  case ip now o ip =>
    obtain ⟨hu, _, _, _, hp⟩ := ip_eq h
    have hs := Jail.cmdIp_settings env.inet env.status env.ressize o now ip s.jail s.world
    rw [hp] at hs
    have hm := Jail.cmdIp_moves hp
    exact ⟨fun _ => hs ▸ ht.running hu, fun _ => (ht.unique hu).moves hm hg (Jail.texts_cmdIp hp)⟩
  case set =>
    obtain ⟨hu, _, _, _, _, hj, hs⟩ := set_eq h
    refine ⟨fun _ => ?_, fun _ => hj ▸ ht.unique hu⟩
    obtain rfl | hs := hs
    case inl => exact hj ▸ ht.running hu
    case inr => exact hj ▸ (ht.running hu).setParam hs

-- In every run that writes each address in one way there is at most one record for each address, and
-- then a command acts on the record of its address if it writes the address as it is tracked.
theorem unique_of_reachable
    (h : Transition.Reachable (fun s : System β => s.up = false)
      (Transition.Guarded (Step env) (OneSpelling env)) s) (hu : s.up) :
    (s.jail.ipaddrs.map Ipaddr.key).Nodup ∧
    ∀ now o ip, (∀ a ∈ s.jail.ipaddrs, Ipaddr.denotes env.inet ip = some a.key →
      ∃ p, Addrlist.lookup s.jail.ipaddrs ip = some p ∧ p.here = a) ↔ s.OneSpelling env (.ip now o ip) := by
  have ht : s.Tracks env := h.invariant (fun s hd => ⟨fun hu => by simp [hd] at hu, fun hu => by simp [hd] at hu⟩)
    fun _ _ _ hs ht => ht.step hs.1 hs.2
  exact ⟨(ht.unique hu).keys, fun _ _ ip => (ht.unique hu).lookup_iff ip⟩

section Example

-- An `inet_pton` that knows two IPv6 addresses, the first in two spellings.
def loopback : Inet where
  pton type text :=
    if type = .inet6 ∧ (text = "::1".toList ∨ text = "0::1".toList) then some (List.replicate 15 0 ++ [1])
    else if type = .inet6 ∧ text = "::2".toList then some (List.replicate 15 0 ++ [2])
    else none
  length_lt h := by
    split at h
    case isTrue hc => obtain ⟨_, rfl | rfl⟩ := hc <;> decide
    case isFalse   =>
      split at h
      case isTrue hc => obtain ⟨_, rfl⟩ := hc; decide
      case isFalse   => cases h
  nonempty h := by
    split at h
    case isTrue hc => obtain ⟨_, rfl | rfl⟩ := hc <;> decide
    case isFalse   =>
      split at h
      case isTrue hc => obtain ⟨_, rfl⟩ := hc; decide
      case isFalse   => cases h
  chars h := by
    split at h
    case isTrue hc => obtain ⟨_, rfl | rfl⟩ := hc <;> exact CString.forall_of_all (by decide)
    case isFalse   =>
      split at h
      case isTrue hc => obtain ⟨_, rfl⟩ := hc; exact CString.forall_of_all (by decide)
      case isFalse   => cases h

def loopEnv : Env :=
  { quadEnv with inet := loopback }

def loopNew : System Blocklist :=
  .new "ssh".toList ⟨⟨[], [], []⟩, [], fun _ => none⟩

def loopRun (ops : List Op) : Option (System Blocklist) :=
  Transition.replay (step loopEnv) loopNew (.start sshParams 1000 :: ops)

-- The last command finds the first record again, and so would one for the other address, but not one in
-- the second spelling.
theorem unique_after_bans :
    ∃ s, loopRun [.ip 1001 1 "::1".toList, .ip 1002 1 "::2".toList, .ip 1003 1 "::1".toList] = some s ∧
    s.jail.ipaddrs.length = 2 ∧ (s.jail.ipaddrs.map Ipaddr.key).Nodup ∧
    (∃ p, Addrlist.lookup s.jail.ipaddrs "::2".toList = some p ∧ p.here ∈ s.jail.ipaddrs.head?) ∧
    ¬∀ a ∈ s.jail.ipaddrs, Ipaddr.denotes loopback "0::1".toList = some a.key →
      ∃ p, Addrlist.lookup s.jail.ipaddrs "0::1".toList = some p ∧ p.here = a := by
  let s₁ := (loopNew.step loopEnv (.start sshParams 1000)).get (by decide)
  let s₂ := (s₁.step loopEnv (.ip 1001 1 "::1".toList)).get (by decide)
  let s₃ := (s₂.step loopEnv (.ip 1002 1 "::2".toList)).get (by decide)
  let s₄ := (s₃.step loopEnv (.ip 1003 1 "::1".toList)).get (by decide)
  have h₁ : Transition.Guarded (Step loopEnv) (OneSpelling loopEnv) loopNew (.start sshParams 1000) s₁ :=
    ⟨(Option.some_get _).symm, show (List.map _ (loaded loopEnv sshParams loopNew)).Nodup by decide⟩
  have h₂ : Transition.Guarded (Step loopEnv) (OneSpelling loopEnv) s₁ (.ip 1001 1 "::1".toList) s₂ :=
    ⟨(Option.some_get _).symm, Jail.spelled_iff.mpr (by decide)⟩
  have h₃ : Transition.Guarded (Step loopEnv) (OneSpelling loopEnv) s₂ (.ip 1002 1 "::2".toList) s₃ :=
    ⟨(Option.some_get _).symm, Jail.spelled_iff.mpr (by decide)⟩
  have h₄ : Transition.Guarded (Step loopEnv) (OneSpelling loopEnv) s₃ (.ip 1003 1 "::1".toList) s₄ :=
    ⟨(Option.some_get _).symm, Jail.spelled_iff.mpr (by decide)⟩
  have ⟨hk, hf⟩ := unique_of_reachable ⟨_, _, rfl, .step h₁ (.step h₂ (.step h₃ (.step h₄ .refl)))⟩
    (show s₄.up by decide)
  refine ⟨s₄, rfl, by decide, hk, ?_, ?_⟩
  case refine_1 =>
    let a := s₄.jail.ipaddrs.head (by decide)
    have ⟨p, hp, ha⟩ := (hf 1004 0 "::2".toList).mpr (Jail.spelled_iff.mpr (by decide)) a (List.head_mem _)
      (by decide)
    exact ⟨p, hp, ha ▸ List.head_mem_head? _⟩
  case refine_2 =>
    intro h
    exact absurd (Jail.spelled_iff.mp ((hf 1004 0 "0::1".toList).mp h)) (by decide)

-- The second spelling of the address makes a second record.
theorem not_unique :
    ∃ s : System Blocklist, Transition.Reachable (·.up = false) (Step loopEnv) s ∧ s.up ∧
    ¬(s.jail.ipaddrs.map Ipaddr.key).Nodup := by
  refine ⟨(loopRun [.ip 1001 1 "::1".toList, .ip 1002 1 "0::1".toList]).get (by decide),
    ⟨_, _, rfl, .of_replay (Option.some_get _).symm⟩, by decide, by decide⟩

end Example

end System
end F2b
