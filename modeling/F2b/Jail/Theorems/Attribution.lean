import F2b.Backends.Blocklist
import F2b.Backends.Traced
import F2b.Jail.Theorems.Calls
import F2b.Jail.Theorems.Restart
import F2b.Lib.Origins

-- Where the addresses come from that a jail blocks: over all restarts and whatever is left of its state files, from
-- its lines, from its commands or from the state file that was there at first.

namespace F2b

variable {inet : Inet}

section Statefile

theorem Ban.text_of_parse_cut {b : Ban} {tail q : CString} (hv : Ipaddr.Valid inet b.text) (hl : b.line = tail ++ q) :
    ∀ a ∈ Statefile.parse inet tail, a.text = b.text := by
  intro a ha
  obtain ⟨s, rfl, hs⟩ | ⟨s, ht, _⟩ := List.append_eq_append_iff.mp hl
  case inr =>
    have hw : ∀ c ∈ tail, ¬CString.isspace c := fun c hc => hv.not_isspace c (ht ▸ List.mem_append_left _ hc)
    have hl : tail.length < IPADDR_MAX := by
      have := hv.length_lt
      simp only [ht, List.length_append] at this
      omega
    simp [Statefile.parse_word hw hl] at ha
  case inl =>
    cases s
    case nil      => simp [Statefile.parse_word hv.not_isspace hv.length_lt] at ha
    case cons c s =>
      simp only [List.cons_append, List.cons.injEq] at hs
      obtain ⟨rfl, hs⟩ := hs
      obtain ⟨new, hn, hp⟩ := Ban.parse_text hv s
      rw [hp] at ha
      simp only [Option.mem_def, Option.bind_eq_some_iff, Option.some.injEq] at ha
      obtain ⟨_, _, _, _, rfl⟩ := ha
      have ht : new.text = b.text := Ipaddr.text_create hn
      exact ht

variable {list : List Ipaddr}

-- What is left of a file that holds the bans of a list gives back none but addresses of this list.
theorem Statefile.texts_loadText_take (hv : ∀ a ∈ list, a.banned → Ipaddr.Valid inet a.text) (n : Nat) :
    ∀ t ∈ Addrlist.texts (loadText inet ((print list).take n)), t ∈ Addrlist.texts list := by
  have hm : ∀ b ∈ (list.filter (·.banned)).map Ipaddr.toBan, b.text ∈ Addrlist.texts list := by
    simp only [List.forall_mem_map, List.mem_filter]
    exact fun a ⟨ha, _⟩ => Addrlist.mem_texts_iff.mpr ⟨a, ha, rfl⟩
  have hv : ∀ b ∈ (list.filter (·.banned)).map Ipaddr.toBan, Ipaddr.Valid inet b.text := by
    simp only [List.forall_mem_map, List.mem_filter]
    exact fun a ⟨ha, hb⟩ => hv a ha hb
  have ht (l : List Ipaddr) : Addrlist.texts l = (l.map Ipaddr.toBan).map (·.text) := by
    rw [Addrlist.texts, List.map_map]
    rfl
  have hs (bs : List Ban) : (bs.map Ban.stored).reverse.map (·.text) = (bs.map (·.text)).reverse := by
    rw [List.map_reverse, List.map_map]
    rfl
  have he : print list = text ((list.filter (·.banned)).map Ipaddr.toBan) := print_eq list
  rw [he]
  generalize (list.filter (·.banned)).map Ipaddr.toBan = bs at hm hv
  obtain hk | hk | ⟨bs₁, b, bs₂, tail, q, rfl, hl, hk⟩ := take_text bs n
  all_goals intro t hmem
  case inl =>
    rw [hk, ht, loadText_text hv, hs] at hmem
    obtain ⟨b, hb, rfl⟩ := List.mem_map.mp (List.mem_reverse.mp hmem)
    exact hm b hb
  case inr.inl =>
    rw [loadText_title hk] at hmem
    cases hmem
  case inr.inr =>
    obtain ⟨hv₁, hv₂⟩ := List.forall_mem_append.mp hv
    have hb := hv₂ b List.mem_cons_self
    rw [hk, ht, loadText_tail hv₁ hb hl, List.map_append, hs] at hmem
    obtain hmem | hmem := List.mem_append.mp hmem
    case inl =>
      simp only [List.map_map, List.mem_map, Option.mem_toList] at hmem
      obtain ⟨a, ha, rfl⟩ := hmem
      have hab : (a.toBan).text = b.text := Ban.text_of_parse_cut hb hl a ha
      exact (congrArg (· ∈ _) hab).mpr (hm b (by simp))
    case inr =>
      obtain ⟨b', hb', rfl⟩ := List.mem_map.mp (List.mem_reverse.mp hmem)
      exact hm b' (List.mem_append_left _ hb')

end Statefile

namespace Jail

variable {β : Type}

theorem disk_save (path : CString) (fate : SaveFate) (jail : Jail) (w : World β)
    (hp : jail.settings.flags.hasState → jail.sfile.path = path) :
    (save fate jail w).2.disk path = w.disk path ∨
    ∃ n, (save fate jail w).2.disk path = some ((Statefile.print jail.ipaddrs).take n) := by
  have ⟨n, hk⟩ : ∃ n, fate.keep (Statefile.print jail.ipaddrs) = (Statefile.print jail.ipaddrs).take n := by
    rw [SaveFate.keep]
    cases fate.written
    case none   => exact ⟨_, List.take_length.symm⟩
    case some n => exact ⟨n, rfl⟩
  simp only [save, Statefile.save, hk]
  split
  case isFalse => exact .inl rfl
  case isTrue hs =>
    obtain rfl := hp (Bool.and_eq_true_iff.mp hs).1
    repeat' split
    all_goals grind [Function.update_apply]

theorem maintain_disk [Backend β] (jail : Jail) (now : Int) (as : List Ipaddr) (w : World β) :
    (maintain jail now as w).2.disk = w.disk := by
  induction as generalizing w
  case nil          => rfl
  case cons a as hi =>
    have hd : (jail.release now a w).2.disk = w.disk := by
      obtain ⟨_, _, _, he, _, hd⟩ | ⟨_, he⟩ := release_eq jail now a w <;> rw [he]
      exact hd
    simp only [maintain]
    split <;> exact (hi _).trans hd

theorem cmdIp_disk [Backend β] (inet : Inet) (status : Ipaddr → CString) (ressize : Nat) (op now : Int) (ip : CString)
    (jail : Jail) (w : World β) : (cmdIp inet status ressize op now ip jail w).2.2.disk = w.disk := by
  have ho (j : Jail) (p : Place Ipaddr) : (operate status ressize op j p w).2.2.disk = w.disk := by
    obtain ⟨_, ⟨_, he⟩ | ⟨_, _, he, _, hd⟩ | ⟨_, _, he, _, hd⟩⟩ := operate_eq status ressize op j p w <;> rw [he]
    case inr.inl => exact hd
    case inr.inr => exact hd
  obtain ⟨_, he⟩ | ⟨_, _, he⟩ | ⟨_, _, _, _, _, he⟩ := cmdIp_eq inet status ressize op now jail ip w <;> rw [he]
  case inr.inl => exact ho ..
  case inr.inr => exact ho ..

end Jail

namespace Traced

variable {β : Type} [Backend β] {A : CString → Prop}

def Within (A : CString → Prop) (b : Traced β) : Prop :=
  ∀ call ∈ b.calls, A call.2

omit [Backend β] in
theorem Within.note {b : Traced β} {ip : CString} (h : b.Within A) (ha : A ip) (kind : Kind) :
    (b.note kind ip).Within A := by
  intro call hc
  obtain hc | hc := List.mem_append.mp hc
  case inl => exact h call hc
  case inr => exact List.mem_singleton.mp hc ▸ ha

theorem keeps_within : Backend.Keeps A (Within (β := β) A) where
  ping  := fun _ h => h
  check := by
    intro ip b ha h
    simp only [Backend.check]
    split
    case isTrue  => exact h.note ha .known
    case isFalse => exact h
  ban   := fun _ _ ha h => h.note ha .ban
  unban := fun _ _ ha h => h.note ha .unban
  stop  := fun _ h => h

end Traced

-- A property of a backend that is about the addresses it has been called for.
structure Backend.Ledger {β : Type} [Backend β] (Q : (CString → Prop) → β → Prop) : Prop where
  keeps : ∀ A, Backend.Keeps A (Q A)
  mono  : ∀ {A A' : CString → Prop} {b : β}, (∀ t, A t → A' t) → Q A b → Q A' b

namespace Traced

theorem ledger {β : Type} [Backend β] : Backend.Ledger (Within (β := β)) where
  keeps := fun _ => keeps_within
  mono  := fun h hb call hc => h _ (hb call hc)

end Traced

namespace System

variable {β : Type} [Backend β] {env : Env} {s s' : System β} {op : Op} {A A' : CString → Prop}
  {Q : (CString → Prop) → β → Prop}

def file (env : Env) (name : CString) (disk : Disk) : Option CString :=
  disk (path env (name.strlcpy CONFIG_KEY_MAX))

def kept (env : Env) (name : CString) (disk : Disk) : List CString :=
  Addrlist.texts ((file env name disk).elim [] (Statefile.loadText env.inet))

theorem valid_of_mem_kept {env : Env} {name : CString} {disk : Disk} {t : CString} (h : t ∈ kept env name disk) :
    Ipaddr.Valid env.inet t := by
  obtain ⟨a, ha, rfl⟩ := Addrlist.mem_texts_iff.mp h
  exact (Statefile.storable_of_mem_load ha).2.valid

def Enters (env : Env) (s : System β) (op : Op) (t : CString) : Prop :=
  Ipaddr.Valid env.inet t ∧ match op with
    | .process filter _ feed _ => Jail.Captured filter feed s.jail t
    | .ip _ op ip              => op > 0 ∧ ip = t
    | _                        => False

-- A jail that holds no address but those of `A`: not in its list, not in its state file, and none that it has
-- handed to the backend.
structure Accounted (env : Env) (Q : (CString → Prop) → β → Prop) (A : CString → Prop) (s : System β) : Prop where
  wellformed : s.Wellformed env
  filed      : s.Filed env
  confined   : s.Confined A (Q A)
  file       : ∀ t ∈ kept env s.jail.name s.world.disk, A t

theorem Accounted.mono (hq : Backend.Ledger Q) (h : ∀ t, A t → A' t) (hs : s.Accounted env Q A) :
    s.Accounted env Q A' where
  wellformed := hs.wellformed
  filed      := hs.filed
  confined   := ⟨fun hu t ht => h t (hs.confined.within hu t ht), hq.mono h hs.confined.backend⟩
  file       := fun t ht => h t (hs.file t ht)

theorem start_kept {params : List Config.Param} {now : Int} (h : s.Step env (.start params now) s') :
    (∀ t ∈ Addrlist.texts (loaded env params s), t ∈ kept env s.jail.name s.world.disk) ∧
    kept env s'.jail.name s'.world.disk = kept env s.jail.name s.world.disk := by
  have hn := (start_file h).1
  have st := start_eq h
  have hl : (s.jail.name.strlcpy CONFIG_KEY_MAX).strlcpy CONFIG_KEY_MAX = s.jail.name.strlcpy CONFIG_KEY_MAX :=
    CString.strlcpy_of_lt (CString.length_strlcpy_lt _ (by decide))
  simp only [kept, file, hn, hl, st.disk]
  simp only [loaded, boot]
  split
  case isFalse => exact ⟨fun t ht => by simp [Addrlist.texts] at ht, rfl⟩
  case isTrue  =>
    have hd : (Statefile.create env.statedir (s.jail.name.strlcpy CONFIG_KEY_MAX) s.world.disk).2
        (path env (s.jail.name.strlcpy CONFIG_KEY_MAX)) =
        some ((s.world.disk (path env (s.jail.name.strlcpy CONFIG_KEY_MAX))).getD []) := Function.update_self ..
    have he (f : Option CString) : (some (f.getD [])).elim [] (Statefile.loadText env.inet) =
        f.elim [] (Statefile.loadText env.inet) := by
      cases f <;> rfl
    have hk := congrArg (fun f => Addrlist.texts (f.elim [] (Statefile.loadText env.inet))) hd
    simp only [he] at hk
    exact ⟨fun t ht => hk ▸ ht, hk⟩

theorem stop_file {stops : Bool} (h : s.Step env (.stop stops) s') :
    s'.jail.name = s.jail.name ∧ s'.world.disk = s.world.disk := by
  have hu := (stop_eq h).up
  simp only [Step, step, hu, if_true, Option.some.injEq] at h
  subst h
  simp only [Jail.stop]
  split
  case isTrue  => exact ⟨rfl, Jail.unbanAll_disk ..⟩
  case isFalse => exact ⟨rfl, rfl⟩

section Pass

variable {jail : Jail} {world : World β} {now : Int}

omit [Backend β] in
theorem Accounted.backend {b : β} (hs : s.Accounted env Q A) (hb : Q A b) :
    { s with world.backend := b }.Accounted env Q A :=
  ⟨hs.wellformed, hs.filed, ⟨hs.confined.within, hb⟩, hs.file⟩

theorem Accounted.consume {filter : Filter} {stag : UInt32} {line : CString} (hq : Backend.Ledger Q) (hu : s.up)
    (hn : ∀ hit, s.jail.capture filter line = .ok (some hit) → Ipaddr.Valid env.inet hit.text → A hit.text)
    (h : Jail.consume env.inet filter now stag line s.jail s.world = .ok (jail, world))
    (hs : s.Accounted env Q A) : { s with jail, world }.Accounted env Q A := by
  have hf := Jail.consume_frame h
  have hc := Jail.Confined.consume (hq.keeps A) hn h ⟨hs.confined.within hu, hs.confined.backend⟩
  refine ⟨hs.wellformed.consume h, fun hu => ?_, ⟨fun _ => hc.within, hc.backend⟩, ?_⟩
  case refine_1 =>
    have ⟨hn, hp⟩ := hs.filed hu
    exact ⟨hf.name ▸ hn, fun hh => hf.path.trans (hf.name ▸ hp (hf.settings ▸ hh))⟩
  case refine_2 => exact hf.name ▸ hf.disk ▸ hs.file

-- The end of a pass leaves the state file as it is, or writes the bans of the list.
theorem finish_kept (fate : SaveFate) (hs : s.Filed env) (hu : s.up) (hv : Jail.AllValid env.inet
      (Jail.tidy now s.jail s.world).1.ipaddrs) :
    ∀ t ∈ kept env s.jail.name (Jail.save fate (Jail.tidy now s.jail s.world).1
        (Jail.tidy now s.jail s.world).2).2.disk,
      t ∈ kept env s.jail.name s.world.disk ∨ t ∈ Addrlist.texts (Jail.tidy now s.jail s.world).1.ipaddrs := by
  have ⟨hlen, hpath⟩ := hs hu
  have hd := Jail.disk_save (path env s.jail.name) fate (Jail.tidy now s.jail s.world).1
    (Jail.tidy now s.jail s.world).2 hpath
  have hb : (Jail.tidy now s.jail s.world).2.disk = s.world.disk := Jail.maintain_disk ..
  simp only [kept, file, CString.strlcpy_of_lt hlen]
  intro t ht
  obtain hd | ⟨n, hd⟩ := hd
  all_goals rw [hd] at ht
  case inl => exact .inl (hb ▸ ht)
  case inr =>
    refine .inr (Statefile.texts_loadText_take (fun a ha _ => ?_) n t ht)
    exact hv _ (Addrlist.mem_texts_iff.mpr ⟨a, ha, rfl⟩)

theorem Accounted.finish {fate : SaveFate} (clock : Int) (hq : Backend.Ledger Q) (hu : s.up)
    (h : Jail.save fate (Jail.tidy now s.jail s.world).1 (Jail.tidy now s.jail s.world).2 = (jail, world))
    (hs : s.Accounted env Q A) : { s with clock, jail, world }.Accounted env Q A := by
  have hwf := hs.wellformed.finish clock h
  have hc := Jail.Confined.tidy now (hq.keeps A) ⟨hs.confined.within hu, hs.confined.backend⟩
  have hw := Jail.save_view fate (Jail.tidy now s.jail s.world).1 (Jail.tidy now s.jail s.world).2
  have hset := Jail.save_settings fate (Jail.tidy now s.jail s.world).1 (Jail.tidy now s.jail s.world).2
  have ⟨hname, hpath⟩ := Jail.save_file fate (Jail.tidy now s.jail s.world).1 (Jail.tidy now s.jail s.world).2
  rw [h] at hw hset hname hpath
  obtain ⟨hl, hb⟩ := Prod.mk.inj hw
  have hk := finish_kept fate hs.filed hu (hl ▸ (hwf hu).2)
  rw [h] at hk
  have hset : jail.settings = s.jail.settings := hset
  have hname : jail.name = s.jail.name := hname
  have hpath : jail.sfile.path = s.jail.sfile.path := hpath
  refine ⟨hwf, fun hu => ?_, ⟨fun _ => hl.symm ▸ hc.within, hb.symm ▸ hc.backend⟩, ?_⟩
  case refine_1 =>
    dsimp only
    rw [hname, hpath, hset]
    exact hs.filed hu
  case refine_2 =>
    intro t ht
    dsimp only at ht
    rw [hname] at ht
    obtain ht | ht := hk t ht
    case inl => exact hs.file t ht
    case inr => exact hc.within t ht

theorem Accounted.process {filter : Filter} {feed : List (UInt32 × CString)} {fate : SaveFate}
    (hq : Backend.Ledger Q) (h : s.Step env (.process filter now feed fate) s')
    (hn : ∀ t, Jail.Captured filter feed s.jail t → Ipaddr.Valid env.inet t → A t) (hs : s.Accounted env Q A) :
    s'.Accounted env Q A := by
  have ⟨hu, hu', _, hp⟩ := process_eq h
  have ⟨jail₁, w₁, hg, hr⟩ := Jail.process_ok hp
  have hi : Jail.Frame s.jail s.world jail₁ w₁ ∧ { s with jail := jail₁, world := w₁ }.Accounted env Q A := by
    refine Jail.gather_induction (P := fun j v => Jail.Frame s.jail s.world j v ∧
      { s with jail := j, world := v }.Accounted env Q A) ?_ hg
      ⟨⟨rfl, rfl, rfl, rfl⟩, hs.backend ((hq.keeps A).ping _ hs.confined.backend)⟩
    intro stag line j v j' v' hl hc ⟨hf, hs⟩
    refine ⟨hf.trans (Jail.consume_frame hc),
      .consume (s := { s with jail := j, world := v }) hq hu (fun hit hh => hn _ ?_) hc hs⟩
    exact ⟨line, hl, hit, Jail.capture_settings hf.settings filter line ▸ hh, rfl⟩
  have hf := Accounted.finish (s := { s with jail := jail₁, world := w₁ }) s'.clock hq hu hr.symm hi.2
  have he : { s with clock := s'.clock, jail := s'.jail, world := s'.world } = s' := by
    rw [hu.trans hu'.symm]
  exact he ▸ hf

end Pass

theorem Accounted.step (hq : Backend.Ledger Q) (h : s.Step env op s') (hs : s.Accounted env Q A) :
    s'.Accounted env Q (fun t => A t ∨ s.Enters env op t) := by
  have hm : s.Accounted env Q fun t => A t ∨ s.Enters env op t := hs.mono hq fun _ => .inl
  have hc (hn : ∀ t, s.Names env op t → Ipaddr.Valid env.inet t → A t ∨ s.Enters env op t) :
      s'.Confined (fun t => A t ∨ s.Enters env op t) (Q (fun t => A t ∨ s.Enters env op t)) :=
    h.confined (hq.keeps _) hs.wellformed hn hm.confined
  have hw := hs.wellformed.step h
  have hf := hs.filed.step h
  cases op
  case process => exact hm.process hq h fun _ hc hv => .inr ⟨hv, hc⟩
  case start   =>
    have ⟨hl, hk⟩ := start_kept h
    exact ⟨hw, hf, hc fun t ht _ => .inl (hs.file t (hl t ht)), hk ▸ hm.file⟩
  case ip now o ip =>
    have ⟨_, _, _, _, hp⟩ := ip_eq h
    have ⟨hn, _⟩ := Jail.cmdIp_file env.inet env.status env.ressize o now ip s.jail s.world
    have hd := Jail.cmdIp_disk env.inet env.status env.ressize o now ip s.jail s.world
    rw [hp] at hn hd
    exact ⟨hw, hf, hc fun _ hn hv => .inr ⟨hv, hn⟩, hn.symm ▸ hd.symm ▸ hm.file⟩
  case set =>
    have ⟨_, _, _, hw', _, hj, _⟩ := set_eq h
    refine ⟨hw, hf, hc fun _ ht _ => ht.elim, ?_⟩
    simp only [hj, hw']
    exact hm.file
  case stop =>
    have ⟨hn, hd⟩ := stop_file h
    exact ⟨hw, hf, hc fun _ ht _ => ht.elim, hn.symm ▸ hd.symm ▸ hm.file⟩

omit [Backend β] in
theorem accounted_new {name : CString} {world : World β} (hb : Q (· ∈ kept env name world.disk) world.backend) :
    (System.new name world).Accounted env Q (· ∈ kept env name world.disk) := by
  have hl : (name.strlcpy CONFIG_KEY_MAX).strlcpy CONFIG_KEY_MAX = name.strlcpy CONFIG_KEY_MAX :=
    CString.strlcpy_of_lt (CString.length_strlcpy_lt _ (by decide))
  have he : kept env (System.new name world).jail.name world.disk = kept env name world.disk :=
    congrArg (fun n => Addrlist.texts ((world.disk (path env n)).elim [] (Statefile.loadText env.inet))) hl
  exact ⟨nofun, nofun, ⟨nofun, hb⟩, fun t ht => he ▸ ht⟩

-- All that a jail blocks, tracks or keeps in its state file is a valid address, which was in this file at first, was
-- captured from a line of a pass or was named by an 'ip ban'.
theorem attributed {name : CString} {world : World (Traced β)} {ops : List Op} {s : System (Traced β)}
    (hw : world.backend.calls = []) (e : Transition.Steps (Step env) (.new name world) ops s) (t : CString)
    (ht : (∃ call ∈ s.world.backend.calls, call.2 = t) ∨ (s.up ∧ t ∈ Addrlist.texts s.jail.ipaddrs) ∨
      t ∈ kept env s.jail.name s.world.disk) :
    Ipaddr.Valid env.inet t ∧
    (t ∈ kept env name world.disk ∨ Transition.Brought (Step env) (Enters env) (.new name world) ops t) := by
  have hs := e.confined (N := Enters env) (P := fun A s => s.Accounted env Traced.Within A) (.mono Traced.ledger)
    (.step Traced.ledger) (accounted_new fun call hc => by simp [hw] at hc)
  have ha : t ∈ kept env name world.disk ∨ Transition.Brought (Step env) (Enters env) (.new name world) ops t := by
    obtain ⟨call, hc, rfl⟩ | ⟨hu, ht⟩ | ht := ht
    case inl     => exact hs.confined.backend call hc
    case inr.inl => exact hs.confined.within hu t ht
    case inr.inr => exact hs.file t ht
  refine ⟨?_, ha⟩
  obtain hk | ⟨_, op, _, _, _, _, hv, _⟩ := ha
  case inl => exact valid_of_mem_kept hk
  case inr => exact hv

section Example

-- A host that a line gives is banned again after a restart, with what is left of the state file.
def tornOps : List Op := [
  .start (sshParams ++ [⟨"state".toList, "yes".toList⟩]) 1000,
  .process (fun line => .ok (some ⟨1, line, 1000⟩)) 1010 [(1, "192.0.2.7".toList)] ⟨true, some 50, true⟩,
  .stop true,
  .start (sshParams ++ [⟨"state".toList, "yes".toList⟩]) 1020]

def tornNew : System (Traced Blocklist) :=
  .new "ssh".toList ⟨⟨⟨[], [], []⟩, []⟩, [], fun _ => none⟩

theorem attributed_torn :
    ∃ s, Transition.replay (step quadEnv) tornNew tornOps = some s ∧
    s.world.backend.calls = [(.ban, "192.0.2.7".toList), (.unban, "192.0.2.7".toList), (.ban, "192.0.2.7".toList)] ∧
    Ipaddr.Valid quadEnv.inet "192.0.2.7".toList ∧
    ("192.0.2.7".toList ∈ kept quadEnv "ssh".toList tornNew.world.disk ∨
      Transition.Brought (Step quadEnv) (Enters quadEnv) tornNew tornOps "192.0.2.7".toList) := by
  let s := (Transition.replay (step quadEnv) tornNew tornOps).get (by decide +kernel)
  have hs : Transition.replay (step quadEnv) tornNew tornOps = some s := (Option.some_get _).symm
  have hu : s.up ∧ "192.0.2.7".toList ∈ Addrlist.texts s.jail.ipaddrs := ⟨by decide +kernel, by decide +kernel⟩
  exact ⟨s, hs, by decide +kernel, attributed rfl (.of_replay hs) _ (.inr (.inl hu))⟩

end Example
end System
end F2b
