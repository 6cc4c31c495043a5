import F2b.Daemon.Theorems.Parts

-- The daemon starts each of its jails as the jail would start by itself.

open F2b.System (path)

namespace F2b

open Backends (Only sim_only)

variable {γ : Type} [Backend γ] {env : Env}

section Start

variable {w : World (Backends γ)} {s : System γ} {setups : CString → Setup} {defs : List Config.Param}
  {sec : Config.Section} {jails : List Jail} {jail : Jail}

omit [Backend γ] in
-- The jail of a section, with the options of `[defaults]` that have been read so far.
theorem create_eq (hn : s.jail.name = sec.name) :
    Jail.create env.atof .builtin ⟨s.jail.name, .jail, defs ++ sec.param⟩ =
    Jail.create env.atof (defs.foldl (Jail.Settings.applyParam env.atof) .builtin) sec := by
  simp [Jail.create, Jail.Settings.applyConfig, List.foldl_append, hn]

theorem file_create (env : Env) (name : CString) (d : Disk) :
    ((Statefile.create env.statedir name d).2 (path env name)).getD [] = (d (path env name)).getD [] := by
  have h : (Statefile.create env.statedir name d).2 (path env name) = some ((d (path env name)).getD []) :=
    Function.update_self ..
  rw [h]
  rfl

structure Comes (setup : Setup) (jail : Jail) : Prop where
  enabled   : jail.settings.flags.enabled
  backend   : jail.settings.flags.hasBackend
  modules   : setup.modules
  statefile : jail.settings.flags.hasState → setup.statefile

theorem start_of_not (hj : Jail.create env.atof .builtin ⟨s.jail.name, .jail, defs ++ sec.param⟩ = jail)
    (h : ¬Comes (setups sec.name) jail) : Solo.start env (setups sec.name) (defs ++ sec.param) s = s := by
  have hb : (s.boot env (defs ++ sec.param)).1.settings.flags.enabled = jail.settings.flags.enabled ∧
      (s.boot env (defs ++ sec.param)).1.settings.flags.hasBackend = jail.settings.flags.hasBackend ∧
      (s.boot env (defs ++ sec.param)).1.settings.flags.hasState = jail.settings.flags.hasState := by
    simp only [System.boot, hj]
    split <;> exact ⟨rfl, rfl, rfl⟩
  obtain ⟨he, hk, hs⟩ := hb
  simp only [Solo.start, System.step, he, hk, hs]
  split
  case isFalse => rfl
  case isTrue hm =>
    rw [if_neg]
    · rfl
    · intro hu
      exact h ⟨by simp_all, by simp_all, by simp_all, fun hs' => by simp_all⟩

variable (setups defs jails)

theorem startOne_of_not (w : World (Backends γ))
    (hj : Jail.create env.atof (defs.foldl (Jail.Settings.applyParam env.atof) .builtin) sec = jail)
    (hn : jail.name = sec.name) (h : ¬Comes (setups sec.name) jail) :
    Live.startOne env setups (defs.foldl (Jail.Settings.applyParam env.atof) .builtin) sec (jails, w) = (jails, w) ∨
    Live.startOne env setups (defs.foldl (Jail.Settings.applyParam env.atof) .builtin) sec (jails, w) =
      (jails, { w with disk := (Statefile.create env.statedir sec.name w.disk).2 }) := by
  by_cases hc : jail.settings.flags.enabled ∧ (jail.settings.flags.hasState → (setups sec.name).statefile)
  case neg =>
    refine .inl ?_
    simp only [not_and_or] at hc
    simp only [Live.startOne, Live.initJail, hj, hn]
    grind
  case pos =>
    have hm : ¬((setups sec.name).modules && jail.settings.flags.hasBackend) := fun hm =>
      have ⟨hm, hb⟩ := Bool.and_eq_true_iff.mp hm
      h ⟨hc.1, hb, hm, hc.2⟩
    simp only [Live.startOne, Live.initJail, hj, hn]
    grind

theorem startOne_of_comes (hu : s.up = false) (hn : s.jail.name = sec.name)
    (hj : Jail.create env.atof (defs.foldl (Jail.Settings.applyParam env.atof) .builtin) sec = jail)
    (hname : jail.name = sec.name) (hp : Part env sec.name w s.world) (h : Comes (setups sec.name) jail) :
    ∃ s' w', Solo.start env (setups sec.name) (defs ++ sec.param) s = s' ∧
    Live.startOne env setups (defs.foldl (Jail.Settings.applyParam env.atof) .builtin) sec (jails, w) =
      (s'.jail :: jails, w') ∧
    s'.up ∧ World.Sim (Only sec.name w.backend.of) (path env sec.name) w.disk w' s'.world ∧
    s'.jail.name = sec.name ∧ (s'.jail.settings.flags.hasState → s'.jail.sfile.path = path env sec.name) := by
  have hb : Jail.create env.atof .builtin ⟨s.jail.name, .jail, defs ++ sec.param⟩ = jail := (create_eq hn).trans hj
  obtain ⟨he, hk, hm, hf⟩ := h
  -- The jail as it is started, with its state file.
  have ⟨jail₁, v₁, w₁, hboot, hinit, hflags, hn₁, hp₁, hsim⟩ : ∃ jail₁ v₁ w₁,
      s.boot env (defs ++ sec.param) = (jail₁, v₁) ∧ Live.initJail env (setups sec.name) jail w = (some jail₁, w₁) ∧
      jail₁.settings.flags = { jail.settings.flags with configured := true } ∧ jail₁.name = sec.name ∧
      (jail₁.settings.flags.hasState → jail₁.sfile.path = path env sec.name) ∧
      World.Sim (Only sec.name w.backend.of) (path env sec.name) w.disk (w₁.on sec.name) v₁ := by
    cases hs : jail.settings.flags.hasState
    case false =>
      refine ⟨{ jail with settings.flags.configured := true }, s.world, w, ?_, ?_, rfl, hname, fun h => ?_, hp.own⟩
      · simp [System.boot, hb, hs]
      · simp [Live.initJail, hk, hm, hs]
      · exact absurd (hs.symm.trans h) Bool.false_ne_true
    case true  =>
      let x := Statefile.create env.statedir jail.name s.world.disk
      let y := Statefile.create env.statedir jail.name w.disk
      refine ⟨{ jail with sfile := x.1, settings.flags.configured := true }, { s.world with disk := x.2 },
        { w with disk := y.2 }, ?_, ?_, rfl, hname, fun _ => ?_, ⟨rfl, hp.backend, fun _ _ => rfl⟩, ?_,
        fun q hq _ => ?_⟩
      · simp [System.boot, hb, hs, x]
      · simp [Live.initJail, hk, hm, hs, hf hs, x, y, Statefile.create]
      · exact hname ▸ rfl
      · rw [← hname] at hp ⊢
        exact (file_create ..).trans (hp.file.trans (file_create ..).symm)
      · exact Function.update_of_ne (hname ▸ hq) ..
  obtain ⟨jail', w', v', h₁, h₂, hv⟩ := Jail.start_sim env.inet (setups sec.name).now jail₁
    (sim_only sec.name w.backend.of) hp₁ hsim
  have hj' : jail'.name = jail₁.name ∧ jail'.settings = jail₁.settings ∧ jail'.sfile = jail₁.sfile := by
    obtain rfl : _ = jail' := congrArg Prod.fst h₁
    exact ⟨rfl, rfl, rfl⟩
  refine ⟨⟨true, (setups sec.name).now, jail', v'⟩, w', ?_, ?_, rfl, hv, hj'.1.trans hn₁, ?_⟩
  case refine_1 =>
    have hc : (!jail.settings.flags.hasState || (setups sec.name).statefile) = true := by
      cases hs : jail.settings.flags.hasState
      case false => rfl
      case true  => exact hf hs
    simp only [Solo.start, System.step, hboot, hflags, hm, he, hk, hu, hc, h₂]
    rfl
  case refine_2 =>
    simp only [Live.startOne, hj, he, hname, hinit, hn₁, h₁]
    rfl
  case refine_3 =>
    rw [hj'.2.1, hj'.2.2]
    exact hp₁

-- The daemon starts a jail as it would start by itself.
theorem startOne_own (hk : sec.name.length < CONFIG_KEY_MAX) (hu : s.up = false) (hn : s.jail.name = sec.name)
    (hp : Part env sec.name w s.world) :
    ∃ s' w', Solo.start env (setups sec.name) (defs ++ sec.param) s = s' ∧
    Live.startOne env setups (defs.foldl (Jail.Settings.applyParam env.atof) .builtin) sec (jails, w) =
      (if s'.up then s'.jail :: jails else jails, w') ∧
    Part env sec.name w' s'.world ∧ Leaves env sec.name w w' ∧ s'.jail.name = sec.name ∧
    (s'.up → s'.jail.settings.flags.hasState → s'.jail.sfile.path = path env sec.name) := by
  generalize hj : Jail.create env.atof (defs.foldl (Jail.Settings.applyParam env.atof) .builtin) sec = jail
  have hname : jail.name = sec.name := hj ▸ CString.strlcpy_of_lt hk
  by_cases hc : Comes (setups sec.name) jail
  case pos =>
    obtain ⟨s', w', hs, hd, hu', hv, hn', hf⟩ := startOne_of_comes setups defs jails hu hn hj hname hp hc
    exact ⟨s', w', hs, by rw [hd, if_pos hu'], .of_own hv, Part.leaves hv, hn', fun _ => hf⟩
  case neg =>
    have hs := start_of_not ((create_eq hn).trans hj) hc
    obtain hd | hd := startOne_of_not setups defs jails w hj hname hc
    case inl => exact ⟨s, w, hs, by simp [hd, hu], hp, ⟨fun _ _ => rfl, fun _ _ _ => rfl⟩, hn, by simp [hu]⟩
    case inr =>
      refine ⟨s, { w with disk := (Statefile.create env.statedir sec.name w.disk).2 }, hs, by simp [hd, hu],
        ⟨hp.backend, ?_⟩, ⟨fun _ _ => rfl, fun q hq _ => ?_⟩, hn, by simp [hu]⟩
      · exact (file_create ..).trans hp.file
      · exact Function.update_of_ne hq ..

theorem startOne_leaves (w : World (Backends γ)) (hk : sec.name.length < CONFIG_KEY_MAX) (hj : Named env jails)
    (hne : sec.name ∉ jails.map (·.name)) :
    ∃ jails' w', Live.startOne env setups (defs.foldl (Jail.Settings.applyParam env.atof) .builtin) sec (jails, w) =
      (jails', w') ∧
    Leaves env sec.name w w' ∧ Named env jails' ∧ (∀ n ∈ jails'.map (·.name), n = sec.name ∨ n ∈ jails.map (·.name)) ∧
    ∀ name, name ≠ sec.name → jails'.find? (·.name = name) = jails.find? (·.name = name) := by
  have hn : (System.new sec.name ⟨w.backend.of sec.name, w.events, w.disk⟩).jail.name = sec.name :=
    CString.strlcpy_of_lt hk
  obtain ⟨s', w', _, hd, _, hl, hn', hf⟩ := startOne_own setups defs jails hk rfl hn
    (.exists_part sec.name w)
  refine ⟨_, w', hd, hl, ?_⟩
  cases hu : s'.up
  case false => exact ⟨hj, fun n hn => .inr hn, fun _ _ => rfl⟩
  case true  =>
    refine ⟨⟨List.nodup_cons.mpr ⟨fun h => hne (hn' ▸ h), hj.nodup⟩, ?_⟩, fun n hn => ?_, fun name hne => ?_⟩
    · exact List.forall_mem_cons.mpr ⟨⟨hn' ▸ hk, fun h => hn' ▸ hf hu h⟩, hj.filed⟩
    · obtain rfl | hn := List.mem_cons.mp hn
      · exact .inl hn'
      · exact .inr hn
    · exact List.find?_cons_of_neg (by simpa [hn'] using hne.symm)

variable {name : CString} {v : World γ} {secs : List Config.Section}

variable {jails}

-- What the sections of a config have for the jails that are not up yet.
structure Waiting (secs : List Config.Section) (jails : List Jail) : Prop where
  nodup : (secs.map Config.Section.name).Nodup
  short : ∀ n ∈ secs.map Config.Section.name, n.length < CONFIG_KEY_MAX
  fresh : ∀ n ∈ secs.map Config.Section.name, n ∉ jails.map (·.name)

theorem Waiting.next {jails' : List Jail} (h : Waiting (sec :: secs) jails)
    (hm : ∀ n ∈ jails'.map (·.name), n = sec.name ∨ n ∈ jails.map (·.name)) : Waiting secs jails' := by
  have ⟨hn, hd⟩ := List.nodup_cons.mp h.nodup
  refine ⟨hd, fun n h' => h.short n (List.mem_cons_of_mem _ h'), fun n h' hj => ?_⟩
  obtain rfl | hj := hm n hj
  · exact hn h'
  · exact h.fresh n (List.mem_cons_of_mem _ h') hj

theorem startAll_other (hs : env.Short) (hn : name.length < CONFIG_KEY_MAX) (hj : Named env jails)
    (hw : Waiting secs jails) (hne : name ∉ secs.map Config.Section.name) (hp : Part env name w v) :
    ∃ jails' w', Live.startAll env setups (defs.foldl (Jail.Settings.applyParam env.atof) .builtin) secs (jails, w) =
      (jails', w') ∧
    Named env jails' ∧ jails'.find? (·.name = name) = jails.find? (·.name = name) ∧ Part env name w' v := by
  induction secs generalizing jails w
  case nil              => exact ⟨jails, w, rfl, hj, rfl, hp⟩
  case cons sec secs hi =>
    have ⟨hne₁, hne⟩ := not_or.mp (List.mem_cons.not.mp hne)
    have hk := hw.short sec.name List.mem_cons_self
    obtain ⟨jails₁, w₁, hd, hl, hj₁, hm, hf⟩ := startOne_leaves setups defs jails w hk hj
      (hw.fresh sec.name List.mem_cons_self)
    obtain ⟨jails', w', hd', hj', hf', hp'⟩ := hi hj₁ (hw.next hm) hne (hp.other hs hn hk hne₁ hl)
    exact ⟨jails', w', by rw [Live.startAll, hd, hd'], hj', hf'.trans (hf name hne₁), hp'⟩

theorem startAll_own (hs : env.Short) (hn : name.length < CONFIG_KEY_MAX) (hj : Named env jails)
    (hw : Waiting secs jails) (hu : s.up = false) (hname : s.jail.name = name) (hne : name ∉ jails.map (·.name))
    (hp : Part env name w s.world) :
    ∃ s' jails' w', ((secs.find? (·.name = name)).map (·.param)).elim s
      (fun ps => Solo.start env (setups name) (defs ++ ps) s) = s' ∧
    Live.startAll env setups (defs.foldl (Jail.Settings.applyParam env.atof) .builtin) secs (jails, w) = (jails', w') ∧
    Named env jails' ∧ jails'.find? (·.name = name) = (if s'.up then some s'.jail else none) ∧
    Part env name w' s'.world ∧ s'.jail.name = name := by
  induction secs generalizing jails w
  case nil              =>
    refine ⟨s, jails, w, rfl, rfl, hj, ?_, hp, hname⟩
    rw [hu, find?_eq_none_iff.mpr hne]
    rfl
  case cons sec secs hi =>
    have hk := hw.short sec.name List.mem_cons_self
    obtain ⟨jails₁, w₁, hd, hl, hj₁, hm, hf⟩ := startOne_leaves setups defs jails w hk hj
      (hw.fresh sec.name List.mem_cons_self)
    by_cases he : sec.name = name
    case pos =>
      subst he
      obtain ⟨s', w₂, hs', hd₂, hp', _, hn', _⟩ := startOne_own setups defs jails hk hu
        hname hp
      obtain ⟨rfl, rfl⟩ := Prod.mk.inj (hd.symm.trans hd₂)
      have hne' : sec.name ∉ secs.map Config.Section.name := (List.nodup_cons.mp hw.nodup).1
      obtain ⟨jails', w', hd', hj', hf', hp'⟩ := startAll_other setups defs hs hn hj₁ (hw.next hm)
        hne' hp'
      refine ⟨s', jails', w', ?_, by rw [Live.startAll, hd, hd'], hj', hf'.trans ?_, hp', hn'⟩
      · rw [List.find?_cons_of_pos (by simp)]
        exact hs'
      · cases hu' : s'.up
        case false => exact find?_eq_none_iff.mpr hne
        case true  => exact List.find?_cons_of_pos (by simp [hn'])
    case neg =>
      have hne₁ : name ∉ jails₁.map (·.name) := fun h => (hm name h).elim (Ne.symm he) hne
      obtain ⟨s', jails', w', hs', hd', hr⟩ := hi hj₁ (hw.next hm) hne₁ (hp.other hs hn hk (Ne.symm he) hl)
      exact ⟨s', jails', w', by rwa [List.find?_cons_of_neg (by simpa using he)], by rw [Live.startAll, hd, hd'], hr⟩

end Start

end F2b
