import F2b.Jail.Theorems.Enabled
import F2b.Jail.Theorems.Saving
import F2b.Jail.Theorems.Shared
import F2b.Objects.Theorems.Restore

-- A jail that is restarted next to one that goes on.

namespace F2b

namespace Ban

-- The ban that blocks an address, and its end.
def key (b : Ban) : CString × Int :=
  (b.text, b.releaseAt)

-- The restart at `t` takes the ban for over if and only if the pass at `t` does, and reads its end as it is.
def Kept (t : Int) (b : Ban) : Prop :=
  (t ≤ b.releaseAt → t < b.releaseAt ∧ Fits b.releaseAt) ∧
  (b.releaseAt < t → F2b.stored b.releaseAt ≤ t)

instance (t : Int) (b : Ban) : Decidable (b.Kept t) :=
  inferInstanceAs (Decidable (_ ∧ _))

variable {bs : List Ban} {t : Int} {b : Ban}

theorem Kept.lt_stored_iff (h : b.Kept t) : t < F2b.stored b.releaseAt ↔ t ≤ b.releaseAt := by
  have ⟨h₁, h₂⟩ := h
  constructor
  case mp =>
    intro hs
    by_contra hn
    exact absurd (h₂ (Int.not_le.mp hn)) (Int.not_le.mpr hs)
  case mpr =>
    intro hr
    have ⟨hl, hf⟩ := h₁ hr
    rwa [F2b.stored_eq_iff.mpr hf]

theorem kept_of_stored (h₁ : t ≤ b.releaseAt → t < b.releaseAt ∧ Fits b.releaseAt)
    (h₂ : t < F2b.stored b.releaseAt → t ≤ b.releaseAt) : b.Kept t :=
  ⟨h₁, fun hr => Int.not_lt.mp fun hs => absurd (h₂ hs) (Int.not_le.mpr hr)⟩

theorem perm_restored (bs : List Ban) (t : Int) :
    (((bs.map stored).reverse.filter (t < ·.releaseAt)).map key).Perm
      ((bs.filter (t < F2b.stored ·.releaseAt)).map (key ∘ stored)) := by
  rw [List.filter_reverse, List.filter_map, List.map_reverse, List.map_map]
  exact List.reverse_perm _

theorem lasting_of_perm
    (h : ((bs.filter (t ≤ ·.releaseAt)).map key).Perm
      ((bs.filter (t < F2b.stored ·.releaseAt)).map (key ∘ stored)))
    (hb : b ∈ bs) (ht : t ≤ b.releaseAt) : t < b.releaseAt ∧ Fits b.releaseAt := by
  have hm : b.key ∈ (bs.filter (t ≤ ·.releaseAt)).map key :=
    List.mem_map_of_mem (List.mem_filter.mpr ⟨hb, by simpa using ht⟩)
  have ⟨c, hc, he⟩ := List.mem_map.mp (h.mem_iff.mp hm)
  have he : F2b.stored c.releaseAt = b.releaseAt := (Prod.mk.inj he).2
  have hc : t < F2b.stored c.releaseAt := by simpa using (List.mem_filter.mp hc).2
  exact he ▸ ⟨hc, fits_stored _⟩

-- The bans that the pass keeps are those that the restart takes over if and only if this holds for each.
theorem perm_keys_iff :
    ((bs.filter (t ≤ ·.releaseAt)).map key).Perm (((bs.map stored).reverse.filter (t < ·.releaseAt)).map key) ↔
    ∀ b ∈ bs, b.Kept t := by
  constructor
  case mp =>
    intro hp
    have hp := hp.trans (perm_restored bs t)
    -- The pass keeps no more bans than the restart, and as many.
    have hs : (bs.filter (t < F2b.stored ·.releaseAt)).filter (t ≤ ·.releaseAt) =
        bs.filter (t ≤ ·.releaseAt) := by
      rw [List.filter_filter]
      refine List.filter_congr fun b hb => ?_
      simp only [Bool.and_eq_left_iff_imp, decide_eq_true_eq]
      intro ht
      have ⟨hl, hf⟩ := lasting_of_perm hp hb ht
      rwa [F2b.stored_eq_iff.mpr hf]
    have he : (bs.filter (t < F2b.stored ·.releaseAt)).filter (t ≤ ·.releaseAt) =
        bs.filter (t < F2b.stored ·.releaseAt) := by
      refine List.filter_sublist.eq_of_length ?_
      simpa [hs] using hp.length_eq
    intro b hb
    refine kept_of_stored (lasting_of_perm hp hb) fun ht => ?_
    simpa using List.filter_eq_self.mp he b (List.mem_filter.mpr ⟨hb, by simpa using ht⟩)
  case mpr =>
    intro h
    have hf : bs.filter (t < F2b.stored ·.releaseAt) = bs.filter (t ≤ ·.releaseAt) :=
      List.filter_congr fun b hb => by simp only [(h b hb).lt_stored_iff]
    refine .trans (.of_eq ?_) (perm_restored bs t).symm
    rw [hf]
    refine List.map_congr_left fun b hb => ?_
    have ⟨hb, ht⟩ := List.mem_filter.mp hb
    have hs := F2b.stored_eq_iff.mpr ((h b hb).1 (by simpa using ht)).2
    simp only [key, Function.comp_apply, stored, hs]

end Ban
namespace Jail

-- The addresses that a list holds banned, and when each is due to be released.
def timetable (l : List Ipaddr) : List (CString × Int) :=
  (bans l).map Ban.key

variable {jail : Jail} {t : Int} {l : List Ipaddr}

theorem holds_iff_mem_timetable (ip : CString) : Holds l ip ↔ ip ∈ (timetable l).map Prod.fst := by
  simp only [Holds, timetable, bans_eq, List.map_map, List.mem_map, List.mem_filter]
  grind [Ban.key, Ipaddr.toBan]

theorem ban?_pass (he : 0 ≤ jail.settings.expiretime) (a : Ipaddr) :
    (if !jail.expired t (eased t a) then (eased t a).ban? else none) = a.ban?.filter (t ≤ ·.releaseAt) := by
  by_cases hb : a.banned
  case neg =>
    have hn : ¬(eased t a).banned := by simp [eased, hb]
    rw [ban?_of_not_banned hb, ban?_of_not_banned hn]
    exact ite_self none
  case pos =>
    have hs : a.ban? = some a.toBan := if_pos hb
    by_cases ht : t ≤ a.releaseAt
    case neg =>
      have hn : ¬(eased t a).banned := by simp [eased, hb, Int.not_le.mp ht, released]
      have hf : ¬t ≤ a.toBan.releaseAt := ht
      rw [ban?_of_not_banned hn, hs, Option.filter_some, decide_eq_false hf]
      exact ite_self none
    case pos =>
      have ha : eased t a = a := by simp [eased, Int.not_lt.mpr ht]
      have hx : ¬jail.expired t a := fun hx => not_banned_of_expired he (fun _ => ht) hx hb
      have hf : t ≤ a.toBan.releaseAt := ht
      rw [ha, hs, Option.filter_some, decide_eq_true hf, Bool.eq_false_iff.mpr hx]
      rfl

theorem bans_pass (he : 0 ≤ jail.settings.expiretime) (l : List Ipaddr) :
    bans ((l.map (eased t)).filter (!jail.expired t ·)) = (bans l).filter (t ≤ ·.releaseAt) := by
  rw [bans, List.filterMap_filter, List.filterMap_map, bans, List.filter_filterMap]
  exact congrArg (List.filterMap · l) (funext (ban?_pass he))

theorem bans_lapse (h : ∀ a ∈ l, a.banned) :
    bans (l.map (lapse t)) = (l.map (·.toBan)).filter (t < ·.releaseAt) := by
  induction l
  case nil          => rfl
  case cons a as hi =>
    have ⟨ha, h⟩ := List.forall_mem_cons.mp h
    have hi := hi h
    by_cases ht : a.releaseAt ≤ t
    case pos =>
      have hn : ¬t < a.toBan.releaseAt := Int.not_lt.mpr ht
      have hl : Ipaddr.ban? (lapse t a) = none := by simp [lapse, ha, ht, Ipaddr.ban?]
      rw [List.map_cons, bans, List.filterMap_cons_none hl, List.map_cons, List.filter_cons,
        if_neg (by simpa using hn), ← hi, bans]
    case neg =>
      have hn : t < a.toBan.releaseAt := Int.not_le.mp ht
      have hl : Ipaddr.ban? (lapse t a) = some a.toBan := by simp [lapse, ht, Ipaddr.ban?, ha]
      rw [List.map_cons, bans, List.filterMap_cons_some hl, List.map_cons, List.filter_cons,
        if_pos (by simpa using hn), ← hi, bans]

theorem unbanAll_disk {β : Type} [Backend β] (jail : Jail) (as : List Ipaddr) (errors : Bool) (w : World β) :
    (unbanAll jail as errors w).2.disk = w.disk := by
  induction as generalizing errors w
  case nil          => rfl
  case cons a as hi =>
    have ⟨_, _, he, _, hd⟩ := unban_eq jail a w
    simp only [unbanAll, he]
    split
    · rw [hi, hd]
    · exact hi errors w

theorem save_file {β : Type} (fate : SaveFate) (jail : Jail) (w : World β) :
    (save fate jail w).1.name = jail.name ∧ (save fate jail w).1.sfile.path = jail.sfile.path := by
  simp only [save, Statefile.save]
  repeat' split
  all_goals exact ⟨rfl, rfl⟩

theorem process_file {β : Type} [Backend β] {inet : Inet} {filter : Filter} {now : Int}
    {feed : List (UInt32 × CString)} {fate : SaveFate} {jail' : Jail} {w w' : World β}
    (h : process inet filter now feed fate jail w = .ok (jail', w')) :
    jail'.name = jail.name ∧ jail'.sfile.path = jail.sfile.path := by
  have ⟨jail₁, w₁, hg, hr⟩ := process_ok h
  have hf := gather_frame hg
  have ⟨hn, hp⟩ := save_file fate (tidy now jail₁ w₁).1 (tidy now jail₁ w₁).2
  rw [← hr] at hn hp
  exact ⟨hn.trans hf.name, hp.trans hf.path⟩

theorem cmdIp_file {β : Type} [Backend β] (inet : Inet) (status : Ipaddr → CString) (ressize : Nat) (op now : Int)
    (ip : CString) (jail : Jail) (w : World β) :
    (cmdIp inet status ressize op now ip jail w).2.1.name = jail.name ∧
    (cmdIp inet status ressize op now ip jail w).2.1.sfile.path = jail.sfile.path := by
  have ho (j : Jail) (p : Place Ipaddr) : (operate status ressize op j p w).2.1.name = j.name ∧
      (operate status ressize op j p w).2.1.sfile.path = j.sfile.path := by
    obtain ⟨_, ⟨_, he⟩ | ⟨_, _, he, _⟩ | ⟨_, _, he, _⟩⟩ := operate_eq status ressize op j p w <;>
    rw [he] <;> exact ⟨rfl, rfl⟩
  obtain ⟨_, he⟩ | ⟨_, _, he⟩ | ⟨_, _, _, _, _, he⟩ := cmdIp_eq inet status ressize op now jail ip w <;> rw [he]
  case inl     => exact ⟨rfl, rfl⟩
  case inr.inl => exact ho ..
  case inr.inr => exact ho ..

end Jail

namespace System

section File

variable {β : Type} [Backend β] {env : Env} {s s' : System β} {op : Op}

def path (env : Env) (name : CString) : CString :=
  (Statefile.create env.statedir name fun _ => none).1.path

def Filed (env : Env) (s : System β) : Prop :=
  s.up → s.jail.name.length < CONFIG_KEY_MAX ∧
  (s.jail.settings.flags.hasState → s.jail.sfile.path = path env s.jail.name)

theorem start_file {params : List Config.Param} {now : Int} (h : s.Step env (.start params now) s') :
    s'.jail.name = s.jail.name.strlcpy CONFIG_KEY_MAX ∧
    (s'.jail.settings.flags.hasState → s'.jail.sfile.path = path env s'.jail.name ∧
      loaded env params s =
        ((s.world.disk s'.jail.sfile.path).elim [] (Statefile.loadText env.inet))) := by
  have st := start_eq h
  have hn : s'.jail.name = (s.boot env params).1.name := by
    simp only [Step, step] at h
    split at h
    case isTrue  => obtain rfl := Option.some.inj h; rfl
    case isFalse => cases h
  rw [hn, st.settings, st.sfile, loaded, boot]
  split
  case isFalse hf => exact ⟨rfl, fun h => absurd h hf⟩
  case isTrue hf  =>
    refine ⟨rfl, fun _ => ⟨rfl, ?_⟩⟩
    dsimp only
    rw [if_pos hf, Statefile.load]
    simp only [Statefile.create, Function.update_self, Option.elim_some]
    cases s.world.disk _ <;> rfl

theorem Filed.step (h : s.Step env op s') (hs : s.Filed env) : s'.Filed env := by
  intro hu
  cases op
  case start params now =>
    have ⟨hn, hp⟩ := start_file h
    exact ⟨hn ▸ CString.length_strlcpy_lt _ (by decide), fun hf => (hp hf).1⟩
  case stop => simp [(stop_eq h).down] at hu
  case process =>
    have ⟨hu', _, _, hp⟩ := process_eq h
    have ⟨hn, hf⟩ := Jail.process_file hp
    rw [hn, hf, Jail.process_settings hp]
    exact hs hu'
  case ip now o ip =>
    have ⟨hu', _, _, _, hp⟩ := ip_eq h
    have he := Jail.cmdIp_settings env.inet env.status env.ressize o now ip s.jail s.world
    have ⟨hn, hf⟩ := Jail.cmdIp_file env.inet env.status env.ressize o now ip s.jail s.world
    rw [hp] at he hn hf
    rw [hn, hf, he]
    exact hs hu'
  case set =>
    have ⟨hu', _, _, _, t, hj, ht⟩ := set_eq h
    have hf : t.flags.hasState = s.jail.settings.flags.hasState := by
      obtain rfl | ht := ht
      · rfl
      · exact Jail.hasState_of_setParam ht
    rw [hj, hf]
    exact hs hu'

end File

variable {env : Env} {s s₁ sA sB : System Blocklist} {t : Int}

-- Two jails hold the same bans with the same ends, and their backends block the same addresses.
structure SameBans (sA sB : System Blocklist) : Prop where
  times   : (Jail.timetable sA.jail.ipaddrs).Perm (Jail.timetable sB.jail.ipaddrs)
  blocked : ∀ ip, ip ∈ sA.world.backend.blocked ↔ ip ∈ sB.world.backend.blocked

-- An empty list has left the file as it was.
def Restartable (env : Env) (t : Int) (s : System Blocklist) : Prop :=
  if s.jail.ipaddrs = [] then ∀ b ∈ Jail.entries env.inet s.jail.sfile s.world.disk, b.releaseAt ≤ t
  else ∀ b ∈ Jail.bans s.jail.ipaddrs, b.Kept t

instance (env : Env) (t : Int) (s : System Blocklist) : Decidable (Restartable env t s) :=
  inferInstanceAs (Decidable (if s.jail.ipaddrs = []
    then ∀ b ∈ Jail.entries env.inet s.jail.sfile s.world.disk, b.releaseAt ≤ t
    else ∀ b ∈ Jail.bans s.jail.ipaddrs, b.Kept t))

-- What a backend blocks is what the jail holds banned, so that the bans are all that counts.
theorem sameBans_iff_perm (hA : ∀ ip, ip ∈ sA.world.backend.blocked ↔ Jail.Holds sA.jail.ipaddrs ip)
    (hB : ∀ ip, ip ∈ sB.world.backend.blocked ↔ Jail.Holds sB.jail.ipaddrs ip) :
    SameBans sA sB ↔ (Jail.timetable sA.jail.ipaddrs).Perm (Jail.timetable sB.jail.ipaddrs) := by
  refine ⟨(·.times), fun h => ⟨h, fun ip => ?_⟩⟩
  rw [hA, hB, Jail.holds_iff_mem_timetable, Jail.holds_iff_mem_timetable, (h.map _).mem_iff]

theorem after_pass {filter : Filter} {fate : SaveFate} (hc : s.Consistent)
    (hr : Jail.Reliable s.world.backend) (h : s.Step env (.process filter t [] fate) sA) :
    Jail.timetable sA.jail.ipaddrs = ((Jail.bans s.jail.ipaddrs).filter (t ≤ ·.releaseAt)).map Ban.key ∧
    ∀ ip, ip ∈ sA.world.backend.blocked ↔ Jail.Holds sA.jail.ipaddrs ip := by
  have ⟨hu, _, _, hp⟩ := process_eq h
  have he := Int.le_of_lt (hc.running hu).expiretime
  have hs : Jail.Silent s.jail [] := fun _ l hl => by simp at hl
  have hh := ((Jail.undisturbed_iff_silent hp).mpr hs).hosts
  have hm := Jail.process_moves he hp
  have hR : Jail.Reliable sA.world.backend := hm.invariant (fun _ _ m => m.reliable) hr
  refine ⟨?_, ((hc.agree hr.harmless).moves hm hR.harmless).mem⟩
  rw [Jail.timetable, hh, Jail.bans_pass he]

theorem after_stop {stops : Bool} (hc : s.Consistent) (hr : Jail.Reliable s.world.backend)
    (h : s.Step env (.stop stops) s₁) :
    s₁.jail.name = s.jail.name ∧ s₁.world.disk = s.world.disk ∧ Jail.Reliable s₁.world.backend ∧
    ∀ ip, ip ∉ s₁.world.backend.blocked := by
  have st := stop_eq h
  have hb := (hc.running st.up).hasBackend
  have hw : s₁.world.backend = Jail.unblockAll s.jail.ipaddrs s.world.backend := st.backend hb
  have hR := hw ▸ hr.unblockAll s.jail.ipaddrs
  refine ⟨?_, ?_, hR, fun ip hm => ?_⟩
  case refine_3 =>
    have ⟨hn, hm⟩ := (Jail.mem_unblockAll_iff ip (hw ▸ hR.harmless)).mp (hw ▸ hm)
    exact hn (((hc.agree hr.harmless).mem ip).mp hm)
  all_goals
    simp only [Step, step, st.up, if_true, Option.some.injEq] at h
    subst h
    simp only [Jail.stop, hb, if_true]
  case refine_2 => exact Jail.unbanAll_disk ..

theorem after_start {params : List Config.Param} (hr : Jail.Reliable s₁.world.backend)
    (hn : ∀ ip, ip ∉ s₁.world.backend.blocked) (h : s₁.Step env (.start params t) sB)
    (hf : sB.jail.settings.flags.hasState) :
    Jail.timetable sB.jail.ipaddrs =
      (((loaded env params s₁).map (·.toBan)).filter (t < ·.releaseAt)).map Ban.key ∧
    ∀ ip, ip ∈ sB.world.backend.blocked ↔ Jail.Holds sB.jail.ipaddrs ip := by
  have st := start_eq h
  have hl : ∀ a ∈ loaded env params s₁, a.banned := fun a ha => by
    rw [((start_file h).2 hf).2] at ha
    exact (Statefile.storable_of_mem_load ha).1
  refine ⟨by rw [Jail.timetable, st.ipaddrs, Jail.bans_lapse hl], fun ip => ?_⟩
  have hR := hr.blockAll sB.jail.ipaddrs
  rw [st.backend, Jail.mem_blockAll_iff ip hR.harmless, or_iff_left (hn ip)]

theorem map_toBan_loaded {params : List Config.Param} {disk : Disk} {sf : Statefile}
    (hv : Jail.AllValid env.inet s.jail.ipaddrs) (hne : s.jail.ipaddrs ≠ [])
    (hs : s.jail.sfile.save s.jail.ipaddrs .complete disk = (true, sf, s.world.disk))
    (hl : loaded env params s₁ =
      ((s.world.disk s.jail.sfile.path).elim [] (Statefile.loadText env.inet))) :
    (loaded env params s₁).map (·.toBan) = ((Jail.bans s.jail.ipaddrs).map Ban.stored).reverse := by
  obtain ⟨hn, _⟩ | ⟨_, hd⟩ := (Statefile.save_ok hs).2
  case inl => exact absurd hn hne
  case inr =>
    have hd : s.world.disk s.jail.sfile.path = some (Statefile.print s.jail.ipaddrs) := hd
    rw [hl, hd, Option.elim_some, Jail.bans_eq]
    exact Statefile.loadText_print fun a ha _ => hv _ (Addrlist.mem_texts_iff.mpr ⟨a, ha, rfl⟩)

-- A restart at `t` next to a pass at `t` without lines, after a save: both leave the same bans if and only
-- if no ban ends at `t` itself, and the file gives back the ends of those that go on.
theorem sameBans_iff {disk : Disk} {sf : Statefile} {filter : Filter} {fate : SaveFate} {stops : Bool}
    {params : List Config.Param}
    (h : Transition.Reachable Fresh (Transition.Guarded (Step env) (LoadsDistinct env)) s)
    (hf : s.jail.settings.flags.hasState) (hr : Jail.Reliable s.world.backend)
    (hs : s.jail.sfile.save s.jail.ipaddrs .complete disk = (true, sf, s.world.disk))
    (hA : s.Step env (.process filter t [] fate) sA) (h₁ : s.Step env (.stop stops) s₁)
    (hB : s₁.Step env (.start params t) sB) (hfB : sB.jail.settings.flags.hasState) :
    SameBans sA sB ↔ Restartable env t s := by
  have hc := consistent_of_reachable h
  have hu : s.up = true := (process_eq hA).1
  have hF : s.Filed env := h.invariant (fun s hf hu => by simp [hf.1] at hu) fun _ _ _ h hs => hs.step h.1
  have ⟨hlen, hpath⟩ := hF hu
  have ⟨htA, hbA⟩ := after_pass hc hr hA
  have ⟨hn₁, hd₁, hr₁, hb₁⟩ := after_stop hc hr h₁
  have ⟨htB, hbB⟩ := after_start hr₁ hb₁ hB hfB
  have ⟨hnB, hpB⟩ := start_file hB
  have ⟨hpB, hl⟩ := hpB hfB
  have hp : sB.jail.sfile.path = s.jail.sfile.path := by
    rw [hpB, hnB, hn₁, CString.strlcpy_of_lt hlen, hpath hf]
  rw [hd₁, hp] at hl
  have hv : Jail.AllValid env.inet s.jail.ipaddrs :=
    (wellformed_of_reachable (h.mono (fun _ hf => hf.1) fun _ _ _ h => h.1) hu).2
  rw [sameBans_iff_perm hbA hbB, htA, htB, Restartable]
  split
  case isFalse hne => rw [map_toBan_loaded hv hne hs hl, Ban.perm_keys_iff]
  case isTrue hn   =>
    have he : (loaded env params s₁).map (·.toBan) = Jail.entries env.inet s.jail.sfile s.world.disk := by
      rw [hl]; rfl
    have hb : Jail.bans s.jail.ipaddrs = [] := by rw [hn]; rfl
    rw [he, hb, List.filter_nil, List.map_nil, List.nil_perm, List.map_eq_nil_iff, List.filter_eq_nil_iff]
    simp only [decide_eq_true_eq, Int.not_lt]

section Example

instance (env : Env) (s : System Blocklist) : (op : Op) → Decidable (LoadsDistinct env s op)
  | .start params now =>
    decidable_of_iff (Addrlist.texts (loaded env params s)).Nodup
      ⟨fun h _ _ he => by cases he; exact h, fun h => h params now rfl⟩
  | .process .. => .isTrue fun _ _ h => by cases h
  | .ip ..      => .isTrue fun _ _ h => by cases h
  | .set ..     => .isTrue fun _ _ h => by cases h
  | .stop _     => .isTrue fun _ _ h => by cases h

def stateParams : List Config.Param :=
  sshParams ++ [⟨"state".toList, "yes".toList⟩]

def distinctRun (ops : List Op) : Option (System Blocklist) :=
  Transition.replay (fun s op => if LoadsDistinct quadEnv s op then s.step quadEnv op else none)
    (.new "ssh".toList ⟨⟨[], [], []⟩, [], fun _ => none⟩) ops

def beforeSave : System Blocklist :=
  (distinctRun (savingOps.take 2)).get (by decide)

def afterSave : System Blocklist :=
  (distinctRun savingOps).get (by decide)

theorem afterSave_reachable :
    Transition.Reachable Fresh (Transition.Guarded (Step quadEnv) (LoadsDistinct quadEnv)) afterSave :=
  ⟨_, _, ⟨rfl, rfl, rfl⟩, .of_replay_guarded (Option.some_get _).symm⟩

theorem save_beforeSave :
    afterSave.jail.sfile.save afterSave.jail.ipaddrs .complete beforeSave.world.disk =
      (true, afterSave.jail.sfile, afterSave.world.disk) :=
  rfl

def passed (t : Int) : Option (System Blocklist) :=
  afterSave.step quadEnv (.process (fun _ => .ok none) t [] .complete)

def stopped : System Blocklist :=
  (afterSave.step quadEnv (.stop true)).get (by decide)

def restarted (t : Int) : Option (System Blocklist) :=
  stopped.step quadEnv (.start stateParams t)

theorem sameBans_at_2000 :
    ∃ sA sB, passed 2000 = some sA ∧ restarted 2000 = some sB ∧ SameBans sA sB := by
  have hA := (Option.some_get (show (passed 2000).isSome by decide)).symm
  have hB := (Option.some_get (show (restarted 2000).isSome by decide)).symm
  have hi := sameBans_iff afterSave_reachable (by decide) ⟨by decide, by decide⟩ save_beforeSave hA
    (Option.some_get _).symm hB (by decide)
  exact ⟨_, _, hA, hB, hi.mpr (by decide)⟩

-- At 4610 the jail that goes on holds the ban, and the one that is restarted does not.
theorem not_sameBans_at_4610 :
    ∃ sA sB, passed 4610 = some sA ∧ restarted 4610 = some sB ∧
    "192.0.2.7".toList ∈ sA.world.backend.blocked ∧ ¬SameBans sA sB := by
  have hA := (Option.some_get (show (passed 4610).isSome by decide)).symm
  have hB := (Option.some_get (show (restarted 4610).isSome by decide)).symm
  refine ⟨_, _, hA, hB, by decide, fun h => ?_⟩
  exact absurd ((h.blocked "192.0.2.7".toList).mp (by decide)) (by decide)

end Example
end System
end F2b
