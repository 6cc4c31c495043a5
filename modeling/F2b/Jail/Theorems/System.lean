import F2b.Jail.System
import F2b.Jail.Moves
import F2b.Jail.Theorems.Settings
import F2b.Objects.Theorems.Statefile
import F2b.Backends.Blocklist

namespace F2b

variable {β : Type} [Backend β]

namespace Jail

variable {inet : Inet} {jail jail' : Jail} {w w' : World β}

theorem tidy_frame (now : Int) (jail : Jail) (w : World β) :
    (tidy now jail w).1.settings = jail.settings ∧ (tidy now jail w).1.name = jail.name ∧
    (tidy now jail w).1.sfile = jail.sfile :=
  ⟨rfl, rfl, rfl⟩

theorem save_settings {β : Type} (fate : SaveFate) (jail : Jail) (w : World β) :
    (save fate jail w).1.settings = jail.settings := by
  simp only [save]
  split <;> rfl

theorem process_settings {filter : Filter} {now : Int} {feed : List (UInt32 × CString)}
    {fate : SaveFate} (h : process inet filter now feed fate jail w = .ok (jail', w')) :
    jail'.settings = jail.settings := by
  have ⟨jail₁, w₁, hg, hr⟩ := process_ok h
  have hs := save_settings fate (tidy now jail₁ w₁).1 (tidy now jail₁ w₁).2
  rw [← hr] at hs
  exact hs.trans (gather_frame hg).settings

theorem operate_settings (status : Ipaddr → CString) (ressize : Nat) (op : Int) (jail : Jail)
    (p : Place Ipaddr) (w : World β) :
    (operate status ressize op jail p w).2.1.settings = jail.settings := by
  obtain ⟨_, ⟨_, he⟩ | ⟨_, _, he, _⟩ | ⟨_, _, he, _⟩⟩ :=
    operate_eq status ressize op jail p w <;>
  rw [he]

theorem cmdIp_settings (inet : Inet) (status : Ipaddr → CString) (ressize : Nat) (op now : Int)
    (ip : CString) (jail : Jail) (w : World β) :
    (cmdIp inet status ressize op now ip jail w).2.1.settings = jail.settings := by
  obtain ⟨_, he⟩ | ⟨_, _, he⟩ | ⟨_, _, _, _, _, he⟩ :=
    cmdIp_eq inet status ressize op now jail ip w
  case inl     => rw [he]
  case inr.inl => rw [he, operate_settings]
  case inr.inr => rw [he, operate_settings]

namespace Settings

variable {atof : CString → Rat} {s s' : Settings}

theorem positive_pos (value : CString) {default : Int} (h : 0 < default) :
    0 < positive value default := by
  simp only [positive]
  split <;> omega

structure Positive (s : Settings) : Prop where
  bantime    : 0 < s.bantime
  findtime   : 0 < s.findtime
  expiretime : 0 < s.expiretime

theorem Positive.builtin : Positive builtin :=
  ⟨by decide, by decide, by decide⟩

theorem Positive.set (h : s.Positive) (k : Key) (value : CString) : (k.set atof s value).Positive := by
  have ⟨hb, hf, he⟩ := h
  cases k
  case bantime    => exact ⟨positive_pos value (by decide), hf, he⟩
  case findtime   => exact ⟨hb, positive_pos value (by decide), he⟩
  case expiretime => exact ⟨hb, hf, positive_pos value (by decide)⟩
  all_goals exact ⟨hb, hf, he⟩

theorem Positive.applyParam (h : s.Positive) (p : Config.Param) :
    (s.applyParam atof p).Positive := by
  obtain ⟨k, _, hk⟩ | ⟨_, hk⟩ := applyParam_cases atof s p <;> rw [hk]
  case inl => exact h.set k p.value
  case inr => exact h

theorem Positive.foldl (h : s.Positive) (ps : List Config.Param) :
    (ps.foldl (Settings.applyParam atof) s).Positive := by
  induction ps generalizing s
  case nil          => exact h
  case cons p ps hi => exact hi (h.applyParam p)

-- The control socket sets options in the way of the config, but for the names of the modules.
theorem applyParam_of_setParam {param value : CString} (h : s.setParam atof param value = some s') :
    s.applyParam atof ⟨param, value⟩ = s' := by
  have hm : ∀ k ∈ [Key.state, .source, .filter, .backend], param ≠ k.name := by
    rintro k hk rfl
    simp only [List.mem_cons, List.not_mem_nil, or_false] at hk
    obtain rfl | rfl | rfl | rfl := hk <;> cases h
  rw [applyParam, if_neg (show param ≠ "state".toList from hm .state (by simp)),
    if_neg (show param ≠ "source".toList from hm .source (by simp)),
    if_neg (show param ≠ "filter".toList from hm .filter (by simp)),
    if_neg (show param ≠ "backend".toList from hm .backend (by simp)), h]
  rfl

-- What the settings of a jail that is up have in common.
structure Running (s : Settings) : Prop extends s.Positive where
  hasBackend : s.flags.hasBackend

theorem Running.applyParam (h : s.Running) (p : Config.Param) : (s.applyParam atof p).Running := by
  refine ⟨h.toPositive.applyParam p, ?_⟩
  obtain ⟨k, _, hk⟩ | ⟨_, hk⟩ := applyParam_cases atof s p <;> rw [hk]
  case inl => cases k <;> first | rfl | exact h.hasBackend
  case inr => exact h.hasBackend

theorem Running.setParam {param value : CString} (h : s.Running)
    (hs : s.setParam atof param value = some s') : s'.Running :=
  applyParam_of_setParam hs ▸ h.applyParam ⟨param, value⟩

end Settings

-- The calls to a backend that restore the bans of a list, and that release them.
def blockAll (as : List Ipaddr) (b : β) : β :=
  (as.filter (·.banned)).foldl (fun b a => Backend.block a.text b) b

def unblockAll (as : List Ipaddr) (b : β) : β :=
  (as.filter (·.banned)).foldl (fun b a => (Backend.unban a.text b).2) b

theorem readd_eq (addr : Ipaddr) (w : World β) :
    (readd addr w).backend = Backend.block addr.text w.backend ∧ (readd addr w).disk = w.disk := by
  by_cases h : (Backend.check addr.text w.backend).1 <;> simp [readd, World.call, Backend.block, h]

theorem restore_eq (as : List Ipaddr) (w : World β) :
    (restore as w).backend = blockAll as w.backend ∧ (restore as w).disk = w.disk := by
  induction as generalizing w
  case nil          => exact ⟨rfl, rfl⟩
  case cons a as hi =>
    cases hb : a.banned
    case false => simp [restore, blockAll, hb, hi]
    case true  => simp [restore, blockAll, hb, hi, readd_eq]

theorem unbanAll_backend (jail : Jail) (as : List Ipaddr) (errors : Bool) (w : World β) :
    (unbanAll jail as errors w).2.backend = unblockAll as w.backend := by
  induction as generalizing errors w
  case nil          => rfl
  case cons a as hi =>
    cases hb : a.banned
    case false => simp [unbanAll, unblockAll, hb, hi]
    case true  =>
      have ⟨_, _, he, hw, _⟩ := unban_eq jail a w
      simp [unbanAll, unblockAll, hb, hi, he, hw]

def AllValid (inet : Inet) (l : List Ipaddr) : Prop :=
  ∀ addr ∈ Addrlist.texts l, Ipaddr.Valid inet addr

theorem AllValid.move {x y : List Ipaddr × β} (m : Move inet x y) (h : AllValid inet x.1) :
    AllValid inet y.1 := by
  obtain ⟨_, hv, _, he⟩ | hs := m.texts <;> intro addr ha
  case inl => obtain rfl | ha := List.mem_cons.mp (he ▸ ha); exacts [hv, h _ ha]
  case inr => exact h addr (hs.subset ha)

theorem AllValid.length_lt {l : List Ipaddr} (h : AllValid inet l) :
    ∀ a ∈ l, a.text.length < IPADDR_MAX :=
  fun _ ha => (h _ (Addrlist.mem_texts_iff.mpr ⟨_, ha, rfl⟩)).length_lt

end Jail

namespace System

variable {env : Env} {s s' : System β} {op : Op}

def view (s : System β) : List Ipaddr × β :=
  s.jail.view s.world

-- The list that a start takes over, before it drops the bans that have run out.
def loaded (env : Env) (params : List Config.Param) (s : System β) : List Ipaddr :=
  let (jail, world) := s.boot env params
  if jail.settings.flags.hasState then jail.sfile.load env.inet world.disk else []

structure Starts (env : Env) (params : List Config.Param) (now : Int) (s s' : System β) : Prop where
  down     : s.up = false
  up       : s'.up = true
  clock    : s'.clock = now
  running  : s'.jail.settings.Running
  settings : s'.jail.settings = (s.boot env params).1.settings
  sfile    : s'.jail.sfile = (s.boot env params).1.sfile
  ipaddrs  : s'.jail.ipaddrs = (loaded env params s).map (Jail.lapse now)
  backend  : s'.world.backend = Jail.blockAll s'.jail.ipaddrs s.world.backend
  disk     : s'.world.disk = (s.boot env params).2.disk

structure Stops (s s' : System β) : Prop where
  up      : s.up = true
  down    : s'.up = false
  ipaddrs : s'.jail.ipaddrs = []
  backend : s.jail.settings.flags.hasBackend →
    s'.world.backend = (Backend.stop (Jail.unblockAll s.jail.ipaddrs s.world.backend)).2

theorem boot_eq {β : Type} (env : Env) (params : List Config.Param) (s : System β) :
    (s.boot env params).1.settings.Positive ∧ (s.boot env params).1.ipaddrs = [] ∧
    (s.boot env params).2.backend = s.world.backend := by
  have hp : (params.foldl (Jail.Settings.applyParam env.atof) .builtin).Positive := .foldl .builtin params
  simp only [boot]
  split <;> exact ⟨⟨hp.bantime, hp.findtime, hp.expiretime⟩, rfl, rfl⟩

theorem start_eq {params : List Config.Param} {now : Int} (h : s.Step env (.start params now) s') :
    Starts env params now s s' := by
  have ⟨hp, hl, hb⟩ := boot_eq env params s
  simp only [Step, step] at h
  split at h
  case isFalse => cases h
  case isTrue hc =>
    simp only [Bool.and_eq_true, Bool.not_eq_true'] at hc
    obtain rfl := Option.some.inj h
    have ⟨hw, hd⟩ := Jail.restore_eq (((loaded env params s)).map (Jail.lapse now)) (s.boot env params).2
    simp only [Jail.start, hc.2, if_true, hl]
    exact ⟨hc.1.1, rfl, rfl, ⟨hp, hc.2⟩, rfl, rfl, rfl, hb ▸ hw, hd⟩

theorem stop_eq {sourceStops : Bool} (h : s.Step env (.stop sourceStops) s') : Stops s s' := by
  simp only [Step, step] at h
  split at h
  case isFalse => cases h
  case isTrue hu =>
    obtain rfl := Option.some.inj h
    cases hb : s.jail.settings.flags.hasBackend
    case false => exact ⟨hu, rfl, by simp [Jail.stop, hb], fun h => by simp [hb] at h⟩
    case true  =>
      exact ⟨hu, rfl, by simp [Jail.stop, hb], fun _ => by
        simp [Jail.stop, hb, World.call, Jail.unbanAll_backend]⟩

-- The operations of a jail that is up keep it up, and move its hosts.
structure Works (env : Env) (s s' : System β) : Prop where
  up       : s.up = true
  up'      : s'.up = true
  settings : s.jail.settings.Running → s'.jail.settings.Running
  moves    : s.jail.settings.Running → Jail.Moves env.inet s.view s'.view

theorem process_eq {filter : Filter} {now : Int} {feed : List (UInt32 × CString)} {fate : SaveFate}
    (h : s.Step env (.process filter now feed fate) s') :
    s.up = true ∧ s'.up = true ∧ s'.clock = now ∧
    s.jail.process env.inet filter now feed fate s.world = .ok (s'.jail, s'.world) := by
  simp only [Step, step] at h
  split at h
  case isFalse => cases h
  case isTrue hu =>
    cases hp : s.jail.process env.inet filter now feed fate s.world
    case error => simp [hp] at h
    case ok r  =>
      simp only [hp] at h
      obtain rfl := Option.some.inj h
      exact ⟨hu, hu, rfl, rfl⟩

theorem ip_eq {now o : Int} {ip : CString} (h : s.Step env (.ip now o ip) s') :
    s.up = true ∧ s'.up = true ∧ s'.clock = s.clock ∧ ∃ reply,
    s.jail.cmdIp env.inet env.status env.ressize o now ip s.world = (reply, s'.jail, s'.world) := by
  simp only [Step, step] at h
  split at h
  case isFalse => cases h
  case isTrue hu =>
    obtain rfl := Option.some.inj h
    exact ⟨hu, hu, rfl, _, rfl⟩

theorem set_eq {param value : CString} (h : s.Step env (.set param value) s') :
    s.up = true ∧ s'.up = true ∧ s'.clock = s.clock ∧ s'.world = s.world ∧
    ∃ settings, s'.jail = { s.jail with settings } ∧
    (settings = s.jail.settings ∨ s.jail.settings.setParam env.atof param value = some settings) := by
  simp only [Step, step] at h
  split at h
  case isFalse => cases h
  case isTrue hu =>
    obtain rfl := Option.some.inj h
    refine ⟨hu, hu, rfl, rfl, ?_⟩
    simp only [Jail.cmdSet]
    cases hs : s.jail.settings.setParam env.atof param value
    case none   => exact ⟨_, rfl, .inl rfl⟩
    case some t => exact ⟨t, rfl, .inr rfl⟩

-- All that an operation can do.
theorem Step.cases (h : s.Step env op s') :
    (∃ params now, op = .start params now ∧ Starts env params now s s') ∨
    (∃ sourceStops, op = .stop sourceStops ∧ Stops s s') ∨
    Works env s s' := by
  cases op
  case start params now => exact .inl ⟨_, _, rfl, start_eq h⟩
  case stop b           => exact .inr (.inl ⟨_, rfl, stop_eq h⟩)
  case process =>
    have ⟨hu, hu', _, hp⟩ := process_eq h
    have hs := Jail.process_settings hp
    exact .inr (.inr ⟨hu, hu', (hs ▸ ·), fun h => Jail.process_moves (Int.le_of_lt h.expiretime) hp⟩)
  case ip now o ip =>
    have ⟨hu, hu', _, _, hp⟩ := ip_eq h
    have hs := Jail.cmdIp_settings env.inet env.status env.ressize o now ip s.jail s.world
    rw [hp] at hs
    exact .inr (.inr ⟨hu, hu', (hs ▸ ·), fun _ => Jail.cmdIp_moves hp⟩)
  case set =>
    have ⟨hu, hu', _, hw, _, hj, hs⟩ := set_eq h
    refine .inr (.inr ⟨hu, hu', fun hp => ?_, fun _ => ?_⟩)
    · obtain rfl | hs := hs
      · exact hj ▸ hp
      · exact hj ▸ hp.setParam hs
    · rw [view, view, hj, hw]
      exact .refl

theorem texts_lapse (now : Int) (as : List Ipaddr) :
    Addrlist.texts (as.map (Jail.lapse now)) = Addrlist.texts as := by
  simp only [Addrlist.texts, List.map_map]
  refine List.map_congr_left fun a _ => ?_
  simp only [Function.comp, Jail.lapse]
  split <;> rfl

theorem valid_of_mem_loaded {β : Type} {s : System β} {params : List Config.Param} {a : Ipaddr}
    (h : a ∈ loaded env params s) :
    Ipaddr.Valid env.inet a.text := by
  simp only [loaded] at h
  split at h
  case isTrue  => exact (Statefile.storable_of_mem_load h).2.valid
  case isFalse => simp at h

-- What the moves of a jail preserve holds while it is up, if a start provides it.
theorem Step.invariant {P : List Ipaddr × β → Prop} (h : s.Step env op s')
    (hs : ∀ params now, Starts env params now s s' → P s'.view)
    (hm : ∀ x y, Jail.Move env.inet x y → P x → P y)
    (hp : s.up → s.jail.settings.Running ∧ P s.view) :
    s'.up → s'.jail.settings.Running ∧ P s'.view := by
  intro hu
  obtain ⟨params, now, _, st⟩ | ⟨_, _, st⟩ | st := h.cases
  case inl     => exact ⟨st.running, hs params now st⟩
  case inr.inl => simp [st.down] at hu
  case inr.inr =>
    have ⟨hp, hv⟩ := hp st.up
    exact ⟨st.settings hp, (st.moves hp).invariant hm hv⟩

-- A jail that is up has a backend and valid addresses.
def Wellformed (env : Env) (s : System β) : Prop :=
  s.up → s.jail.settings.Running ∧ Jail.AllValid env.inet s.jail.ipaddrs

theorem Wellformed.step (h : s.Step env op s') (hw : s.Wellformed env) : s'.Wellformed env := by
  refine h.invariant (P := fun x => Jail.AllValid env.inet x.1) (fun _ _ st => ?_)
    (fun _ _ m => Jail.AllValid.move m) hw
  intro addr ha
  rw [view, Jail.view, st.ipaddrs, texts_lapse] at ha
  obtain ⟨_, hm, rfl⟩ := Addrlist.mem_texts_iff.mp ha
  exact valid_of_mem_loaded hm

theorem wellformed_of_reachable
    (h : Transition.Reachable (fun s : System β => s.up = false) (Step env) s) : s.Wellformed env :=
  h.invariant (fun s hd hu => by simp [hd] at hu) fun _ _ _ h hw => hw.step h

section Example

-- An IPv4 host with one jail, which looks for the text after `from `.
def quadEnv : Env where
  inet     := .quad
  atof     := fun _ => 0
  status   := fun _ => []
  ressize  := 4096
  statedir := "/var/db/f2b".toList

def sshParams : List Config.Param := [
  ⟨"enabled".toList, "yes".toList⟩, ⟨"source".toList, "files:/var/log/auth.log".toList⟩,
  ⟨"filter".toList, "preg:ssh.regexp".toList⟩, ⟨"backend".toList, "exec-ipset:banned".toList⟩]

-- A run of this jail against a backend that answers as given.
def sshRun (answers : List Bool) (ops : List Op) : Option (System Blocklist) :=
  Transition.replay (step quadEnv)
    (.new "ssh".toList ⟨⟨[], answers, []⟩, [], fun _ => none⟩) ops

theorem loaded_sshParams {β : Type} (s : System β) : loaded quadEnv sshParams s = [] := by
  have : (sshParams.foldl (Jail.Settings.applyParam fun _ => 0) .builtin).flags.hasState = false := by
    decide
  simp [loaded, boot, Jail.create, Jail.Settings.applyConfig, quadEnv, this]

end Example
end System
end F2b
