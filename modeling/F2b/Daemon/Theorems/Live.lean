import F2b.Backends.Blocklist
import F2b.Daemon.Theorems.Startup
import F2b.Objects.Theorems.Distinct

-- What the jails of the daemon do all together, each of them does by itself.

open F2b.System (path)

namespace F2b

open Backends (Only sim_only)

variable {γ μ : Type} [Backend γ] {env : Env}

def Op.work {β : Type} [Backend β] (env : Env) : Op → Jail → World β → Jail × World β
  | .ip now o text, jail, w    => (jail.cmdIp env.inet env.status env.ressize o now text w).2
  | .set param value, jail, w  => ((jail.cmdSet env.atof env.ressize param value).2, w)
  | _, jail, w                 => (jail, w)

section Command

open Control

variable {β : Type} [Backend β] {replies : Replies μ} {now : Int} {cmd : Cmd} {op : Op} {jail : Jail}

theorem step_of_operation (h : Live.operation now cmd = some op) {s : System β} (hu : s.up = true) :
    s.step env op =
      some { s with jail := (op.work env s.jail s.world).1, world := (op.work env s.jail s.world).2 } := by
  simp only [Live.operation] at h
  split at h
  all_goals cases h
  all_goals simp only [System.step, hu, if_true]
  all_goals rfl

theorem work_alike (env : Env) (op : Op) (jail : Jail) (w : World β) : Alike jail (op.work env jail w).1 := by
  cases op
  case ip now o ip     =>
    have ⟨hn, hp⟩ := Jail.cmdIp_file env.inet env.status env.ressize o now ip jail w
    exact ⟨hn, by rw [Op.work, Jail.cmdIp_settings], hp⟩
  case set param value =>
    simp only [Op.work, Jail.cmdSet]
    cases hs : jail.settings.setParam env.atof param value
    case none   => exact ⟨rfl, rfl, rfl⟩
    case some t => exact ⟨rfl, Jail.hasState_of_setParam hs, rfl⟩
  all_goals exact ⟨rfl, rfl, rfl⟩

theorem work_sim {β₁ β₂ : Type} [Backend β₁] [Backend β₂] {r : β₁ → β₂ → Prop} {p : CString} {D : Disk} {w₁ : World β₁}
    {w₂ : World β₂} (env : Env) (hr : Backend.Sim r) (op : Op) (jail : Jail) (h : World.Sim r p D w₁ w₂) :
    ∃ jail' v₁ v₂, op.work env jail w₁ = (jail', v₁) ∧ op.work env jail w₂ = (jail', v₂) ∧ World.Sim r p D v₁ v₂ := by
  cases op
  case ip now o ip =>
    obtain ⟨_, jail', v₁, v₂, h₁, h₂, hv⟩ := Jail.cmdIp_sim env.inet env.status env.ressize o now jail hr ip h
    exact ⟨jail', v₁, v₂, by rw [Op.work, h₁], by rw [Op.work, h₂], hv⟩
  all_goals exact ⟨_, _, _, rfl, rfl, h⟩

theorem cmdProcess_eq {c : Control β μ} {r : (CString × Control β μ) × List Nat}
    (h : (cmdProcess env replies now cmd c).run [] = some r) :
    (Live.operation now cmd = none ∧ r.1.2.jails = c.jails ∧ r.1.2.world = c.world) ∨
    ∃ op name, Live.operation now cmd = some op ∧ cmd.args[1]? = some name ∧
      ((Place.find? (·.name = name) c.jails = none ∧ r.1.2 = c) ∨
      ∃ p, Place.find? (·.name = name) c.jails = some p ∧
        r.1.2.jails = (p.set (op.work env p.here c.world).1).list ∧ r.1.2.world = (op.work env p.here c.world).2) := by
  have hd {jail : Option (Place Jail)} {log : List Nat} (h : (dispatch env replies now cmd jail c).run log = some r)
      (hj : cmd.type.hasJail → jail.isSome) :
      (Live.operation now cmd = none ∧ r.1.2.jails = c.jails ∧ r.1.2.world = c.world) ∨
      ∃ op p, Live.operation now cmd = some op ∧ jail = some p ∧
        r.1.2.jails = (p.set (op.work env p.here c.world).1).list ∧ r.1.2.world = (op.work env p.here c.world).2 := by
    rw [dispatch] at h
    rw [Live.operation]
    cases ht : cmd.type <;> simp only [ht] at h ⊢
    case jailSet =>
      obtain ⟨p, hp, h⟩ := Deref.run_follow_bind h
      obtain ⟨param, hparam, h⟩ := Deref.run_read_bind h
      obtain ⟨value, hvalue, h⟩ := Deref.run_read_bind h
      cases h
      exact .inr ⟨_, p, rfl, hp, by simp [Op.work, List.getD, hparam, hvalue], rfl⟩
    case jailIpStatus | jailIpBan | jailIpRelease =>
      obtain ⟨p, hp, h⟩ := Deref.run_follow_bind h
      obtain ⟨ip, hip, h⟩ := Deref.run_read_bind h
      cases h
      exact .inr ⟨_, p, rfl, hp, by simp [Op.work, ipXxx, List.getD, hip], by simp [Op.work, ipXxx, List.getD, hip]⟩
    case logLevel =>
      obtain ⟨level, _, h⟩ := Deref.run_read_bind h
      cases h
      exact .inl ⟨trivial, rfl, rfl⟩
    case jailStatus =>
      obtain ⟨p, _, h⟩ := Deref.run_follow_bind h
      cases h
      exact .inl ⟨trivial, rfl, rfl⟩
    case jailSourceStats | jailFilterStats | jailFilterReload =>
      obtain ⟨p, _, h⟩ := Deref.run_follow_bind h
      split at h <;> cases h <;> exact .inl ⟨trivial, rfl, rfl⟩
    all_goals
      cases h
      exact .inl ⟨trivial, rfl, rfl⟩
  rw [cmdProcess] at h
  split_ifs at h with hh hj
  case pos =>
    obtain rfl := Option.some.inj h
    exact .inl ⟨by simp [Live.operation, hh], rfl, rfl⟩
  case pos =>
    obtain ⟨name, hn, h⟩ := Deref.run_read_bind h
    split at h
    case h_1 hf   =>
      cases h
      cases ho : Live.operation now cmd
      case none    => exact .inl ⟨rfl, rfl, rfl⟩
      case some op => exact .inr ⟨op, name, rfl, hn, .inl ⟨hf, rfl⟩⟩
    case h_2 p hf =>
      obtain h | ⟨op, _, ho, hp, hr⟩ := hd h fun _ => rfl
      case inl => exact .inl h
      case inr =>
        cases hp
        exact .inr ⟨op, name, ho, hn, .inr ⟨p, hf, hr⟩⟩
  case neg =>
    obtain h | ⟨_, _, _, hp, _⟩ := hd h fun hj' => absurd hj' hj
    case inl => exact .inl h
    case inr => cases hp

end Command

-- The daemon and a jail by itself that has come as far.
structure Refines (env : Env) (name : CString) (l : Live γ μ) (t : Solo γ) : Prop where
  named    : Named env l.control.jails
  called   : t.system.jail.name = name
  jail     : l.control.jails.find? (·.name = name) = if t.system.up then some t.system.jail else none
  part     : Part env name l.control.world t.system.world
  defaults : l.defaults = t.defaults.foldl (Jail.Settings.applyParam env.atof) .builtin

namespace Refines

open Transition

variable {name : CString} {l l' : Live γ μ} {t : Solo γ} {replies : Replies μ}

omit [Backend γ] in
theorem name_of_find? {jails : List Jail} {jail : Jail} (h : jails.find? (·.name = name) = some jail) :
    jail.name = name := by
  simpa using List.find?_some h

theorem pass (hs : env.Short) (hn : name.length < CONFIG_KEY_MAX) {passes : CString → Pass} {jails : List Jail}
    {world : World (Backends γ)} (h : Live.passAll env passes l.control.jails l.control.world = .ok (jails, world))
    (hr : Refines env name l t) :
    ∃ t', t.Step env (.pass (passes name)) t' ∧
    Refines env name { l with control := { l.control with jails, world } } t' := by
  have hnamed := hr.named.alike (loop_alike (local_pass passes) h)
  have hl := loop_part hs hn (local_pass passes) hr.named h hr.part
  have hj := hr.jail
  cases hu : t.system.up
  all_goals simp only [hu, if_true, Bool.false_eq_true, if_false] at hj
  all_goals simp only [hj] at hl
  case false =>
    obtain ⟨hf, hp⟩ := hl
    refine ⟨t, by simp [Solo.Step, Solo.step, Solo.operate, hu], hnamed, hr.called, ?_, hp, hr.defaults⟩
    rw [hu]
    exact hf
  case true  =>
    obtain ⟨jail', v', hg, hf, hp⟩ := hl
    rw [hr.called] at hg
    have hg' : t.system.jail.process env.inet (passes name).filter (passes name).now (passes name).feed
      (passes name).fate t.system.world = .ok (jail', v') := hg
    refine ⟨{ t with system := { t.system with clock := (passes name).now, jail := jail', world := v' } }, ?_, hnamed,
      name_of_find? hf, ?_, hp, hr.defaults⟩
    · simp [Solo.Step, Solo.step, Solo.operate, System.step, hu, hg']
    · simp [hu, hf]

theorem stopped (hs : env.Short) (hn : name.length < CONFIG_KEY_MAX) (stops : CString → Bool)
    (hr : Refines env name l t) :
    ∃ s, Solo.stop env (stops name) t.system = some s ∧ s.up = false ∧ s.jail.name = name ∧
    Part env name (Live.stopAll stops l.control.jails l.control.world) s.world := by
  obtain ⟨js, h⟩ := loop_stop stops l.control.jails l.control.world
  have hl := loop_part hs hn (local_stop stops) hr.named h hr.part
  have hj := hr.jail
  cases hu : t.system.up
  all_goals simp only [hu, if_true, Bool.false_eq_true, if_false] at hj
  all_goals simp only [hj] at hl
  case false => exact ⟨t.system, by simp [Solo.stop, Solo.operate, hu], hu, hr.called, hl.2⟩
  case true  =>
    obtain ⟨jail', v', hg, hf, hp⟩ := hl
    rw [hr.called] at hg
    obtain ⟨rfl, rfl⟩ := Prod.mk.inj (Except.ok.inj hg)
    refine ⟨{ t.system with
      up    := false
      jail  := (t.system.jail.stop (stops name) t.system.world).2.1
      world := (t.system.jail.stop (stops name) t.system.world).2.2 }, ?_, rfl, name_of_find? hf, hp⟩
    simp [Solo.stop, Solo.operate, System.step, hu]

theorem exit (hs : env.Short) (hn : name.length < CONFIG_KEY_MAX) (stops : CString → Bool) (hr : Refines env name l t) :
    ∃ t', t.Step env (.exit (stops name)) t' ∧
    Refines env name { l with control := { l.control with
      jails := [], world := Live.stopAll stops l.control.jails l.control.world } } t' := by
  obtain ⟨s, hs, hu, hname, hp⟩ := hr.stopped hs hn stops
  refine ⟨{ t with system := s }, by simp [Solo.Step, Solo.step, hs], ⟨List.nodup_nil, List.forall_mem_nil _⟩, hname,
    ?_, hp, hr.defaults⟩
  simp [hu]

theorem load (hs : env.Short) (hn : name.length < CONFIG_KEY_MAX) (fs : Config.Fs) (path : CString)
    (setups : CString → Setup) (stops : CString → Bool) (hr : Refines env name l t) :
    ∃ t', Steps (Solo.Step env) t ((Live.Act.load fs path setups stops).view name).toList t' ∧
    Refines env name (l.load env fs path setups stops) t' := by
  have hd := Config.distinct_loaded fs path
  simp only [Live.Act.view, Live.load]
  generalize Config.load fs .empty path = x at hd
  obtain ⟨ok, config⟩ := x
  cases ok
  case false => exact ⟨t, .refl, hr.named, hr.called, hr.jail, hr.part, hr.defaults⟩
  case true  =>
    obtain ⟨s, hstop, hu, hname, hp⟩ := hr.stopped hs hn stops
    have hdef : config.defaults.elim l.defaults (l.defaults.applyConfig env.atof) =
        (t.defaults ++ config.defaultParams).foldl (Jail.Settings.applyParam env.atof) .builtin := by
      rw [List.foldl_append, ← hr.defaults, Config.defaultParams]
      cases config.defaults <;> rfl
    have hj : Named env [] := ⟨List.nodup_nil, List.forall_mem_nil _⟩
    have hw : Waiting config.jails [] := ⟨hd.nodup, hd.short, fun _ _ => List.not_mem_nil⟩
    obtain ⟨s', jails', w', hs', hl, hj', hf', hp', hn'⟩ := startAll_own setups
      (t.defaults ++ config.defaultParams) hs hn hj hw hu hname List.not_mem_nil hp
    refine ⟨⟨s', t.defaults ++ config.defaultParams⟩, .step ?_ .refl, ?_⟩
    case refine_1 => simp [Solo.Step, Solo.step, hstop, ← hs']
    case refine_2 =>
      simp only [hdef, hl, if_true]
      exact ⟨hj', hn', hf', hp', rfl⟩

section Command

variable {now : Int} {cmd : Cmd} {p : Place Jail} {jail : Jail}

omit [Backend γ] in
theorem alike_set (h : Alike p.here jail) : List.Forall₂ Alike p.list (p.set jail).list := by
  have hr (l : List Jail) : List.Forall₂ Alike l l := List.forall₂_same.mpr fun _ _ => ⟨rfl, rfl, rfl⟩
  exact List.rel_append (hr _) (.cons h (hr _))

omit [Backend γ] in
theorem find?_eq (name : CString) (jails : List Jail) :
    jails.find? (·.name = name) = (Place.find? (·.name = name) jails).map (·.here) :=
  (Place.map_here_find? ..).symm

theorem command (hs : env.Short) (hn : name.length < CONFIG_KEY_MAX) (h : l.command env replies now cmd = some l')
    (hr : Refines env name l t) :
    ∃ t', Steps (Solo.Step env) t ((Live.Act.command now cmd : Live.Act).view name).toList t' ∧
    Refines env name l' t' := by
  obtain ⟨r, hrun, rfl⟩ := Option.map_eq_some_iff.mp h
  simp only [Live.Act.view]
  obtain ⟨ho, hj, hw⟩ | ⟨op, k, ho, hk, hc⟩ := cmdProcess_eq hrun
  case inl =>
    rw [ho]
    refine ⟨t, ?_, hj ▸ hr.named, hr.called, hj ▸ hr.jail, hw ▸ ⟨hr.part.backend, hr.part.file⟩, hr.defaults⟩
    split <;> exact .refl
  case inr =>
    have hd : cmd.args.getD 1 [] = k := by rw [List.getD_eq_getElem?_getD, hk]; rfl
    simp only [hk, Option.some.injEq, ho, Option.map_some]
    rw [hd] at hc
    obtain ⟨hf, he⟩ | ⟨p, hf, hj, hw⟩ := hc
    case inl =>
      -- There is no such jail.
      have hr' : Refines env name { l with control := r.1.2 } t :=
        ⟨he ▸ hr.named, hr.called, he ▸ hr.jail, he ▸ ⟨hr.part.backend, hr.part.file⟩, hr.defaults⟩
      refine ⟨t, ?_, hr'⟩
      split
      case isFalse => exact .refl
      case isTrue hkn =>
        subst hkn
        have hj := hr.jail
        rw [find?_eq, hf] at hj
        cases hu : t.system.up
        case true  => simp [hu] at hj
        case false => exact .step (by simp [Solo.Step, Solo.step, Solo.operate, hu]) .refl
    case inr =>
      have hpk : p.here.name = k := by simpa using Place.find?_here hf
      have hl : p.list = l.control.jails := Place.find?_list hf
      have ha := work_alike env op p.here (l.control.world.on k)
      have hnamed : Named env r.1.2.jails := hj ▸ (hl ▸ hr.named).alike (alike_set ha)
      by_cases hkn : k = name
      case pos =>
        -- The jail itself: it does the same work by itself.
        subst hkn
        obtain ⟨jail', w', v', h₁, h₂, hv⟩ := work_sim env (sim_only k l.control.world.backend.of) op p.here
          hr.part.own
        rw [h₁] at hj hw ha
        have hfind := hr.jail
        rw [find?_eq, hf] at hfind
        cases hu : t.system.up
        case false => simp [hu] at hfind
        case true  =>
          have hhere : p.here = t.system.jail := by simpa [hu] using hfind
          have hname : jail'.name = k := ha.1.trans hpk
          rw [hhere] at h₂
          rw [if_pos rfl]
          refine ⟨{ t with system := { t.system with jail := jail', world := v' } }, .step ?_ .refl, hnamed, hname, ?_,
            hw ▸ .of_own hv, hr.defaults⟩
          · simp [Solo.Step, Solo.step, Solo.operate, hu, step_of_operation ho hu, h₂]
          · simp only [hu, if_true]
            rw [hj, find?_eq, Place.find?_set hf (by simp [hname])]
            rfl
      case neg =>
        -- Another jail, whose work leaves the part of this one as it is.
        have hlen : k.length < CONFIG_KEY_MAX := hpk ▸ (hr.named.filed p.here (hl ▸ p.here_mem)).1
        obtain ⟨jail', w', v', h₁, _, hv⟩ := work_sim env (sim_only k l.control.world.backend.of) op p.here
          (Part.exists_part k l.control.world).own
        rw [h₁] at hj hw ha
        have hname : jail'.name = k := ha.1.trans hpk
        refine ⟨t, by rw [if_neg hkn]; exact .refl, hnamed, hr.called, ?_, ?_, hr.defaults⟩
        · have hset := Place.find?_set_of_not (q := (·.name = name)) (p := p) (a := jail') (by simp [hpk, hkn])
            (by simp [hname, hkn])
          rw [← hr.jail, find?_eq, find?_eq, hj, hset, hl]
        · exact hw ▸ hr.part.other hs hn hlen (Ne.symm hkn) (Part.leaves hv)

end Command

theorem step {a : Live.Act} (hs : env.Short) (hn : name.length < CONFIG_KEY_MAX) (h : l.Step env replies a l')
    (hr : Refines env name l t) :
    ∃ t', Steps (Solo.Step env) t (a.view name).toList t' ∧ Refines env name l' t' := by
  cases a
  case pass passes =>
    simp only [Live.Step, Live.step] at h
    split at h
    case h_2              => cases h
    case h_1 jails w hp =>
      obtain rfl := Option.some.inj h
      obtain ⟨t', ht, hr'⟩ := hr.pass hs hn hp
      exact ⟨t', .step ht .refl, hr'⟩
  case command now cmd            => exact hr.command hs hn h
  case load fs path setups stops  =>
    obtain rfl := Option.some.inj h
    exact hr.load hs hn fs path setups stops
  case exit stops =>
    obtain rfl := Option.some.inj h
    obtain ⟨t', ht, hr'⟩ := hr.exit hs hn stops
    exact ⟨t', .step ht .refl, hr'⟩

theorem run {as : List Live.Act} (hs : env.Short) (hn : name.length < CONFIG_KEY_MAX)
    (h : Steps (Live.Step env replies) l as l') (hr : Refines env name l t) :
    ∃ t', Steps (Solo.Step env) t (as.filterMap (Live.Act.view name)) t' ∧ Refines env name l' t' := by
  induction h generalizing t
  case refl                => exact ⟨t, .refl, hr⟩
  case step a as ha _ hi =>
    obtain ⟨t₁, ht₁, hr₁⟩ := hr.step hs hn ha
    obtain ⟨t₂, ht₂, hr₂⟩ := hi hr₁
    have he : (a :: as).filterMap (Live.Act.view name) = (a.view name).toList ++ as.filterMap (Live.Act.view name) := by
      rw [List.filterMap_cons]
      cases a.view name <;> rfl
    exact ⟨t₂, he ▸ ht₁.append ht₂, hr₂⟩

end Refines

structure Live.Starts (l : Live γ μ) : Prop where
  jails    : l.control.jails = []
  defaults : l.defaults = .builtin

-- A jail before that, with its backend and its state file if it is there.
def Solo.new (env : Env) (name : CString) (backend : γ) (file : Option CString) : Solo γ where
  system   := .new name ⟨backend, [], Function.update (fun _ => none) (path env name) file⟩
  defaults := []

omit [Backend γ] in
theorem Solo.file_new (env : Env) (name : CString) (backend : γ) (file : Option CString) :
    (Solo.new env name backend file).system.world.disk (path env name) = file := by
  simp [Solo.new, System.new]

section Runs

open Transition

variable {name : CString} {l l' m m' : Live γ μ} {t t' : Solo γ} {replies : Replies μ} {as bs : List Live.Act}

omit [Backend γ] in
theorem refines_starts (env : Env) (hn : name.length < CONFIG_KEY_MAX) (hl : l.Starts) :
    Refines env name l (.new env name (l.control.world.backend.of name) (l.control.world.disk (path env name))) := by
  refine ⟨?_, CString.strlcpy_of_lt hn, ?_, ⟨rfl, ?_⟩, hl.defaults⟩
  · rw [hl.jails]
    exact ⟨List.nodup_nil, List.forall_mem_nil _⟩
  · rw [hl.jails]
    rfl
  · rw [Solo.file_new]

-- A jail by itself does operations of a jail.
theorem operations_of_step {a : Solo.Act} (h : t.Step env a t') :
    ∃ ops, Steps (System.Step env) t.system ops t'.system := by
  have hop {op : Op} {s s' : System γ} (h : Solo.operate env op s = some s') :
      ∃ ops, Steps (System.Step env) s ops s' := by
    simp only [Solo.operate] at h
    split at h
    case isTrue  => exact ⟨[op], .step h .refl⟩
    case isFalse => exact Option.some.inj h ▸ ⟨[], .refl⟩
  have hstop {stops : Bool} {s s' : System γ} (h : Solo.stop env stops s = some s') :
      ∃ ops, Steps (System.Step env) s ops s' := @hop (.stop stops) _ _ h
  have hstart (setup : Setup) (ps : List Config.Param) (s : System γ) :
      ∃ ops, Steps (System.Step env) s ops (Solo.start env setup ps s) := by
    simp only [Solo.start]
    split
    case isFalse => exact ⟨[], .refl⟩
    case isTrue  =>
      cases hs : s.step env (.start ps setup.now)
      case none   => exact ⟨[], .refl⟩
      case some s' => exact ⟨[.start ps setup.now], .step hs .refl⟩
  cases a
  case pass | op | exit =>
    obtain ⟨s, hs, rfl⟩ := Option.map_eq_some_iff.mp h
    exact hop hs
  case load defs params setup stops =>
    obtain ⟨s, hs, rfl⟩ := Option.map_eq_some_iff.mp h
    obtain ⟨ops, ho⟩ := hstop hs
    cases params
    case none    => exact ⟨ops, ho⟩
    case some ps =>
      obtain ⟨ops', ho'⟩ := hstart setup (t.defaults ++ defs ++ ps) s
      exact ⟨ops ++ ops', ho.append ho'⟩

theorem operations_of_steps {acts : List Solo.Act} (h : Steps (Solo.Step env) t acts t') :
    ∃ ops, Steps (System.Step env) t.system ops t'.system := by
  induction h
  case refl             => exact ⟨[], .refl⟩
  case step ha _ hi =>
    obtain ⟨ops, ho⟩ := operations_of_step ha
    obtain ⟨ops', ho'⟩ := hi
    exact ⟨ops ++ ops', ho.append ho'⟩

-- Whatever the daemon does, each of its jails lives the life of a jail by itself, which depends only on what there is
-- for it in the configs, passes and commands.
theorem lives_alone (hs : env.Short) (hn : name.length < CONFIG_KEY_MAX) (hl : l.Starts)
    (h : Steps (Live.Step env replies) l as l') :
    ∃ t, Steps (Solo.Step env) (.new env name (l.control.world.backend.of name) (l.control.world.disk (path env name)))
      (as.filterMap (Live.Act.view name)) t ∧
    l'.control.jails.find? (·.name = name) = (if t.system.up then some t.system.jail else none) ∧
    l'.control.world.backend.of name = t.system.world.backend ∧
    (l'.control.world.disk (path env name)).getD [] = (t.system.world.disk (path env name)).getD [] ∧
    ∃ ops, Steps (System.Step env) (.new name
      ⟨l.control.world.backend.of name, [],
        Function.update (fun _ => none) (path env name) (l.control.world.disk (path env name))⟩) ops t.system := by
  obtain ⟨t, ht, hr⟩ := (refines_starts env hn hl).run hs hn h
  exact ⟨t, ht, hr.jail, hr.part.backend, hr.part.file, operations_of_steps ht⟩

-- What the daemon does for other jails makes no difference to a jail: neither their sections, nor what their backends
-- and modules answer, nor their passes and commands.
theorem unaffected {replies' : Replies μ} (hs : env.Short) (hn : name.length < CONFIG_KEY_MAX) (hl : l.Starts)
    (hm : m.Starts) (hb : l.control.world.backend.of name = m.control.world.backend.of name)
    (hf : l.control.world.disk (path env name) = m.control.world.disk (path env name))
    (hv : as.filterMap (Live.Act.view name) = bs.filterMap (Live.Act.view name))
    (h : Steps (Live.Step env replies) l as l') (h' : Steps (Live.Step env replies') m bs m') :
    l'.control.jails.find? (·.name = name) = m'.control.jails.find? (·.name = name) ∧
    l'.control.world.backend.of name = m'.control.world.backend.of name ∧
    (l'.control.world.disk (path env name)).getD [] = (m'.control.world.disk (path env name)).getD [] := by
  have hd : Deterministic (Solo.Step env : Solo γ → Solo.Act → Solo γ → Prop) :=
    fun _ _ _ _ h₁ h₂ => Option.some.inj (h₁.symm.trans h₂)
  obtain ⟨t, ht, hr⟩ := (refines_starts env hn hl).run hs hn h
  obtain ⟨t', ht', hr'⟩ := (refines_starts env hn hm).run hs hn h'
  rw [hb, hf, hv] at ht
  obtain rfl := ht.deterministic hd ht'
  exact ⟨hr.jail.trans hr'.jail.symm, hr.part.backend.trans hr'.part.backend.symm,
    hr.part.file.trans hr'.part.file.symm⟩

end Runs

namespace Live
section Example

open Transition

def host : Env := ⟨.quad, fun _ => 0, fun _ => [], 4096, "/var/lib/f2b".toList⟩

def quiet : Replies Unit := ⟨[], 1, fun _ => [], fun _ _ => [], fun _ _ => [], fun _ _ => ([], ())⟩

def conf : Config.Fs where
  open? p := if p = "f2b.conf".toList then some
    ("[jail:ssh]\nenabled = yes\nbackend = exec\n".toList ++
      "[jail:http]\nenabled = yes\nsource = files:access.log\nfilter = preg:http\nbackend = exec\n".toList) else none
  isDir _ := false
  glob _  := none

def first : Live Blocklist Unit where
  defaults := .builtin
  control  := ⟨.run, .init, [], ⟨⟨[], fun _ => ⟨[], [], []⟩⟩, [], fun _ => none⟩, ()⟩

-- The modules of the second jail do or do not come up.
def boots (modules : Bool) (name : CString) : Setup where
  statefile := true
  modules   := name = "ssh".toList || modules
  now       := 1000

def booting (modules : Bool) : Live.Act :=
  .load conf "f2b.conf".toList (boots modules) fun _ => true

def booted (modules : Bool) : Live Blocklist Unit :=
  first.load host conf "f2b.conf".toList (boots modules) fun _ => true

theorem short_host : host.Short := by
  rw [Env.Short]
  decide

theorem starts_first : first.Starts :=
  ⟨rfl, rfl⟩

theorem steps_booted (modules : Bool) : Steps (Live.Step host quiet) first [booting modules] (booted modules) :=
  .step rfl .refl

-- A line of its own source and a command ban two hosts for the second jail.
def passes (name : CString) : Pass where
  filter := fun line => .ok (some ⟨1, line, 1000⟩)
  now    := 1010
  feed   := if name = "http".toList then [(1, "192.0.2.7".toList)] else []
  fate   := .complete

def busy : List Live.Act := [
  booting true, .pass passes,
  .command 1011 ⟨.jailIpBan, ["jail".toList, "http".toList, "ip".toList, "ban".toList, "192.0.2.8".toList]⟩]

theorem lives_alone_ssh :
    ∃ l t, replay (Live.step host quiet) first busy = some l ∧
    (l.control.world.backend.of "http".toList).blocked = ["192.0.2.8".toList, "192.0.2.7".toList] ∧
    Steps (Solo.Step host) (.new host "ssh".toList (first.control.world.backend.of "ssh".toList)
      (first.control.world.disk (path host "ssh".toList))) (busy.filterMap (Live.Act.view "ssh".toList)) t ∧
    l.control.jails.find? (·.name = "ssh".toList) = some t.system.jail ∧ t.system.world.backend.blocked = [] := by
  let l := (replay (Live.step host quiet) first busy).get (by decide +kernel)
  have hr : replay (Live.step host quiet) first busy = some l := (Option.some_get _).symm
  have hn : "ssh".toList.length < CONFIG_KEY_MAX := by decide
  obtain ⟨t, ht, hj, hb, -⟩ := lives_alone short_host hn starts_first (.of_replay hr)
  have hu : t.system.up := by
    by_contra hu
    have hf : (l.control.jails.find? (·.name = "ssh".toList)).isSome := by decide +kernel
    rw [hj, if_neg hu] at hf
    cases hf
  rw [if_pos hu] at hj
  exact ⟨l, t, hr, by decide +kernel, ht, hj, hb ▸ by decide +kernel⟩

-- It does not matter to the jail `ssh` whether the other one comes up.
theorem unaffected_ssh :
    (booted true).control.jails.map (·.name) ≠ (booted false).control.jails.map (·.name) ∧
    (booted true).control.jails.find? (·.name = "ssh".toList) =
      (booted false).control.jails.find? (·.name = "ssh".toList) := by
  have hv : [booting true].filterMap (Live.Act.view "ssh".toList) =
      [booting false].filterMap (Live.Act.view "ssh".toList) := by
    have hb : boots true "ssh".toList = boots false "ssh".toList := rfl
    simp only [booting, List.filterMap_cons, Live.Act.view, hb]
  have hn : "ssh".toList.length < CONFIG_KEY_MAX := by decide
  refine ⟨by decide +kernel, ?_⟩
  exact (unaffected short_host hn starts_first starts_first rfl rfl hv (steps_booted true)
    (steps_booted false)).1

end Example
end Live
end F2b
