import F2b.Jail.Modules
import F2b.Jail.Theorems.System
import F2b.Objects.Theorems.Module

-- The life cycle of the modules of a jail.

namespace F2b.Jail

open F2b.Module (Kind Call Library Phase Follows)

namespace Modules

variable {ms ms₁ ms₂ ms₃ : Modules} {k kind : Kind} {cs : List Call} {p q : Phase}

def calls (ms : Modules) (kind : Kind) : List Call :=
  ms.log.filterMap fun c => if c.1 = kind then some c.2 else none

theorem calls_record : (ms.record kind cs).calls kind = ms.calls kind ++ cs := by
  simp [calls, record, List.filterMap_map]

def Stands (ms : Modules) (kind : Kind) (p : Phase) : Prop :=
  Module.Stands ((ms.slot kind).getD .alloc) (ms.calls kind) p

def Fresh (ms : Modules) (s : Settings) (kind : Kind) : Prop :=
  s.has kind → ms.slot kind = some .alloc ∧ ms.calls kind = []

theorem Fresh.create (s : Settings) (kind : Kind) : (create s).Fresh s kind :=
  fun h => ⟨if_pos h, rfl⟩

structure Only (kind : Kind) (ms₁ ms₂ : Modules) : Prop where
  slot  : ∀ k, k ≠ kind → ms₂.slot k = ms₁.slot k
  calls : ∀ k, k ≠ kind → ms₂.calls k = ms₁.calls k

namespace Only

theorem refl (kind : Kind) (ms : Modules) : Only kind ms ms :=
  ⟨fun _ _ => rfl, fun _ _ => rfl⟩

theorem trans (h₁ : Only kind ms₁ ms₂) (h₂ : Only kind ms₂ ms₃) : Only kind ms₁ ms₃ :=
  ⟨fun k hk => (h₂.slot k hk).trans (h₁.slot k hk), fun k hk => (h₂.calls k hk).trans (h₁.calls k hk)⟩

theorem record (ms : Modules) (kind : Kind) (cs : List Call) : Only kind ms (ms.record kind cs) := by
  refine ⟨fun _ _ => rfl, fun k hk => ?_⟩
  simp [Modules.calls, Modules.record, List.filterMap_map, hk.symm]

theorem set (ms : Modules) (kind : Kind) (m : Option Module) : Only kind ms (ms.set kind m) :=
  ⟨fun _ hk => if_neg hk, fun _ _ => rfl⟩

theorem destroy (ms : Modules) (kind : Kind) : Only kind ms (ms.destroy kind) := by
  simp only [Modules.destroy]
  split
  case h_1 => exact refl kind ms
  case h_2 => exact (record ..).trans (set ..)

theorem stands (h : Only kind ms₁ ms₂) (hk : k ≠ kind) (hs : ms₁.Stands k p) : ms₂.Stands k p := by
  rwa [Stands, h.slot k hk, h.calls k hk]

theorem fresh {s : Settings} (h : Only kind ms₁ ms₂) (hk : k ≠ kind) (hf : ms₁.Fresh s k) : ms₂.Fresh s k :=
  fun hs => ⟨(h.slot k hk).trans (hf hs).1, (h.calls k hk).trans (hf hs).2⟩

end Only

theorem Stands.create (s : Settings) (kind : Kind) : (create s).Stands kind .absent := by
  have hs : ((Modules.create s).slot kind).getD .alloc = .alloc := by
    simp only [Modules.create]
    split <;> rfl
  rw [Stands, hs]
  exact .alloc

theorem Stands.record (h : ms.Stands kind p) (hc : cs.foldlM Phase.next p = some q) (hl : q.live = p.live) :
    (ms.record kind cs).Stands kind q := by
  refine ⟨?_, h.live.trans hl.symm⟩
  rw [calls_record, Module.phase_append, h.phase]
  exact hc

theorem follows_destroy (h : ms.Stands kind p) : Follows ((ms.destroy kind).calls kind) ↔ p ≠ .running := by
  have hc : (ms.destroy kind).calls kind = ms.calls kind ++ ((ms.slot kind).getD .alloc).destroy := by
    simp only [destroy]
    split
    case h_1 h   => rw [h]; exact (List.append_nil _).symm
    case h_2 m h => rw [h]; exact calls_record
  exact hc ▸ Module.Stands.follows_destroy h

end Modules

open Modules

variable {e : Setup} {s : Settings} {ms : Modules} {kind : Kind} {label : Label} {p q : Phase}

def comesUp (e : Setup) (s : Settings) (kind : Kind) : Bool :=
  !s.has kind || (library e s kind).any (·.usable kind)

theorem initModule_spec (e : Setup) (s : Settings) (label : Label) (hs : ms.slot kind = some .alloc)
    (hc : ms.calls kind = []) :
    ∃ ms', Only kind ms ms' ∧
    (((library e s kind).any (·.usable kind) ∧ initModule e s kind (Module.init kind) label ms = .ok ms' ∧
      ms'.Stands kind .created ∧ (ms'.slot kind).map (·.flags) = (library e s kind).map (·.state₂)) ∨
    (¬(library e s kind).any (·.usable kind) ∧
      initModule e s kind (Module.init kind) label ms = .error (label, ms') ∧
      ∃ p, ms'.Stands kind p ∧ ¬p.live)) := by
  simp only [initModule, library]
  cases findSection e s kind
  case none        =>
    refine ⟨ms, .refl kind ms, .inr ⟨by simp, rfl, .absent, ?_, by simp [Phase.live]⟩⟩
    rw [Modules.Stands, hs, hc]
    exact .alloc
  case some config =>
    have hl := Module.init_loaded kind (e.dlopen kind) config
    have hst {p : Phase} {m : Module} {cs : List Call} (h : Module.Stands m cs p) :
        ((ms.record kind cs).set kind (some m)).Stands kind p := by
      have hm : (ms.record kind cs).calls kind = ms.calls kind ++ cs := calls_record
      rw [hc, List.nil_append] at hm
      have hm : ((ms.record kind cs).set kind (some m)).calls kind = cs := hm
      rwa [Modules.Stands, hm, show ((ms.record kind cs).set kind (some m)).slot kind = some m from if_pos rfl]
    simp only [hs, Option.getD_some]
    generalize Module.init kind (e.dlopen kind) config .alloc = r at hl
    obtain ⟨ok, m, cs⟩ := r
    refine ⟨(ms.record kind cs).set kind (some m), (Only.record ..).trans (.set ..), ?_⟩
    cases ok
    case true  =>
      obtain ⟨hp, hf⟩ := hl.up rfl
      exact .inl ⟨hl.ok.symm, rfl, hst hp, (congrArg _ (if_pos rfl)).trans hf.symm⟩
    case false =>
      obtain ⟨p, hp, hd⟩ := hl.down Bool.false_ne_true
      exact .inr ⟨fun h => Bool.false_ne_true (hl.ok.trans h), rfl, p, hst hp, hd⟩

theorem startModule_spec (e : Setup) (s : Settings) (h : ms.Stands kind .created) :
    ∃ ms', Only kind ms ms' ∧
    (((library e s kind).any (·.starts) ∧ startModule e s kind ms = .ok ms' ∧ ms'.Stands kind .running) ∨
    (¬(library e s kind).any (·.starts) ∧ startModule e s kind ms = .error (.cleanup3, ms') ∧
      ms'.Stands kind .failed)) := by
  refine ⟨_, .record ms kind [.start ((library e s kind).any (·.starts))], ?_⟩
  simp only [startModule]
  cases (library e s kind).any (·.starts)
  case true  => exact .inl ⟨rfl, rfl, h.record rfl rfl⟩
  case false => exact .inr ⟨Bool.false_ne_true, rfl, h.record rfl rfl⟩

def needsFilter (e : Setup) (s : Settings) : Bool :=
  s.has .source && (library e s .source).any (·.state₂ &&& MOD_NEED_FILTER ≠ 0)

theorem initSource_spec (e : Setup) (s : Settings) :
    ∃ ms', Only .source (.create s) ms' ∧
    ((comesUp e s .source ∧ initSource e s (.create s) = .ok ms' ∧
      ms'.Stands .source (if s.has .source then .created else .absent) ∧
      (ms'.slot .source).any (·.flags &&& MOD_NEED_FILTER ≠ 0) = needsFilter e s) ∨
    (¬comesUp e s .source ∧ initSource e s (.create s) = .error (.cleanup1, ms') ∧
      ∃ p, ms'.Stands .source p ∧ ¬p.live)) := by
  simp only [initSource, sourceInit, comesUp, needsFilter]
  cases hs : s.has .source
  case false =>
    have hn : (Modules.create s).slot .source = none := by simp [Modules.create, hs]
    exact ⟨_, .refl .source _, .inl ⟨rfl, rfl, .create s .source, by simp [hn]⟩⟩
  case true  =>
    have ⟨hn, hc⟩ := Fresh.create s .source hs
    have ⟨ms', ho, h⟩ := initModule_spec e s .cleanup1 hn hc
    refine ⟨ms', ho, ?_⟩
    obtain ⟨hu, he, hst, hf⟩ | ⟨hu, he, hst⟩ := h
    case inl =>
      refine .inl ⟨hu, he, hst, ?_⟩
      have ha := congrArg (Option.any (· &&& MOD_NEED_FILTER ≠ 0)) hf
      rw [Option.any_map, Option.any_map] at ha
      exact ha
    case inr => exact .inr ⟨hu, he, hst⟩

theorem initFilter_spec (e : Setup) (s : Settings)
    (hs : ms.Fresh s .filter)
    (hn : (ms.slot .source).any (·.flags &&& MOD_NEED_FILTER ≠ 0) = needsFilter e s) :
    ∃ ms', Only .filter ms ms' ∧
    ((comesUp e s .filter ∧ (needsFilter e s → s.has .filter) ∧ initFilter e s ms = .ok ms') ∨
    (¬(comesUp e s .filter ∧ (needsFilter e s → s.has .filter)) ∧
      ∃ label, (label = .cleanup1 ∨ label = .cleanup2) ∧ initFilter e s ms = .error (label, ms'))) := by
  simp only [initFilter, filterInit, comesUp, hn]
  cases hf : s.has .filter
  case false =>
    refine ⟨ms, .refl .filter ms, ?_⟩
    cases hn : needsFilter e s
    case false => exact .inl ⟨rfl, nofun, rfl⟩
    case true  => exact .inr ⟨fun h => Bool.false_ne_true (h.2 rfl), _, .inl rfl, rfl⟩
  case true  =>
    have ⟨hs, hc⟩ := hs hf
    have ⟨ms', ho, h⟩ := initModule_spec e s .cleanup2 hs hc
    refine ⟨ms', ho, ?_⟩
    obtain ⟨hu, he, _⟩ | ⟨hu, he, _⟩ := h
    case inl => exact .inl ⟨hu, fun _ => rfl, he⟩
    case inr => exact .inr ⟨fun h => hu h.1, _, .inr rfl, he⟩

theorem initBackend_spec (e : Setup) (s : Settings)
    (hs : ms.Fresh s .backend) (ha : ms.Stands .backend .absent) :
    ∃ ms', Only .backend ms ms' ∧
    ((s.has .backend ∧ comesUp e s .backend ∧ initBackend e s ms = .ok ms' ∧ ms'.Stands .backend .created) ∨
    (¬(s.has .backend ∧ comesUp e s .backend) ∧ initBackend e s ms = .error (.cleanup3, ms') ∧
      ∃ p, ms'.Stands .backend p ∧ ¬p.live)) := by
  simp only [initBackend, backendInit, comesUp]
  cases hb : s.has .backend
  case false =>
    exact ⟨ms, .refl .backend ms, .inr ⟨fun h => Bool.false_ne_true h.1, rfl, .absent, ha, Bool.false_ne_true⟩⟩
  case true  =>
    have ⟨hs, hc⟩ := hs hb
    have ⟨ms', ho, h⟩ := initModule_spec e s .cleanup3 hs hc
    refine ⟨ms', ho, ?_⟩
    obtain ⟨hu, he, hst, _⟩ | ⟨hu, he, hst⟩ := h
    case inl => exact .inl ⟨rfl, hu, he, hst⟩
    case inr => exact .inr ⟨fun h => hu h.2, he, hst⟩

theorem startSource_spec (e : Setup) (s : Settings)
    (h : ms.Stands .source (if s.has .source then .created else .absent)) :
    ∃ ms', Only .source ms ms' ∧
    (((s.has .source → (library e s .source).any (·.starts)) ∧ startSource e s ms = .ok ms' ∧
      ms'.Stands .source (if s.has .source then .running else .absent)) ∨
    (¬(library e s .source).any (·.starts) ∧ startSource e s ms = .error (.cleanup3, ms') ∧
      ms'.Stands .source .failed)) := by
  simp only [startSource]
  cases hs : s.has .source <;> rw [hs] at h
  case false => exact ⟨ms, .refl .source ms, .inl ⟨nofun, rfl, h⟩⟩
  case true  =>
    have ⟨ms', ho, h⟩ := startModule_spec e s h
    refine ⟨ms', ho, ?_⟩
    obtain ⟨hu, he, hst⟩ | ⟨hu, he, hst⟩ := h
    case inl => exact .inl ⟨fun _ => hu, he, hst⟩
    case inr => exact .inr ⟨hu, he, hst⟩

-- The source has been started when the backend fails to start.
structure Abandoned (e : Setup) (s : Settings) : Prop where
  source    : s.has .source
  backend   : s.has .backend
  statefile : s.flags.hasState → e.statefile
  comesUp   : ∀ kind, comesUp e s kind
  filter    : needsFilter e s → s.has .filter
  starts    : (library e s .source).any (·.starts)
  fails     : ¬(library e s .backend).any (·.starts)

-- Where the initialization leaves for a label, and in which phases the source and the backend are then.
structure Leaves (label : Label) (ms : Modules) (p q : Phase) : Prop where
  source  : ms.Stands .source p
  backend : ms.Stands .backend q
  early   : label = .cleanup0 → ¬p.live
  late    : label ≠ .cleanup3 → ¬q.live

theorem ne_running_of_not_live (h : ¬p.live) : p ≠ .running := by
  rintro rfl
  exact h rfl

theorem Leaves.follows_iff (h : Leaves label ms p q) :
    (Follows ((label.cleanup ms).calls .source) ↔ p ≠ .running) ∧
    (Follows ((label.cleanup ms).calls .backend) ↔ q ≠ .running) := by
  have hq (hl : label ≠ .cleanup3) : Follows (ms.calls .backend) ↔ q ≠ .running := by
    have hl := h.late hl
    exact iff_of_true ((Module.follows_iff h.backend.phase).mpr hl) (ne_running_of_not_live hl)
  have hb (ms : Modules) : (ms.destroy .source).calls .backend = ms.calls .backend :=
    (Only.destroy ms .source).calls .backend nofun
  have hf (ms : Modules) : (ms.destroy .filter).calls .backend = ms.calls .backend :=
    (Only.destroy ms .filter).calls .backend nofun
  have hs {ms : Modules} (h : ms.Stands .source p) : (ms.destroy .filter).Stands .source p :=
    (Only.destroy ms .filter).stands nofun h
  cases label
  case cleanup0 =>
    have hl := h.early rfl
    exact ⟨iff_of_true ((Module.follows_iff h.source.phase).mpr hl) (ne_running_of_not_live hl), hq nofun⟩
  case cleanup1 => exact ⟨follows_destroy h.source, hb ms ▸ hq nofun⟩
  case cleanup2 =>
    refine ⟨follows_destroy (hs h.source), ?_⟩
    simp only [Label.cleanup, hb, hf]
    exact hq nofun
  case cleanup3 =>
    refine ⟨follows_destroy (hs ((Only.destroy ms .backend).stands nofun h.source)), ?_⟩
    simp only [Label.cleanup, hb, hf]
    exact follows_destroy h.backend

theorem initModules_spec (e : Setup) (s : Settings) :
    ∃ ms, (¬Abandoned e s ∧ initModules e s (.create s) = .ok ms ∧ s.has .backend ∧
      ms.Stands .source (if s.has .source then .running else .absent) ∧ ms.Stands .backend .running) ∨
    ∃ label p q, initModules e s (.create s) = .error (label, ms) ∧ Leaves label ms p q ∧
      q ≠ .running ∧ (p = .running ↔ Abandoned e s) := by
  simp only [initModules, bind, Except.bind]
  by_cases hst : s.flags.hasState && !e.statefile
  case pos =>
    simp only [hst, if_true]
    refine ⟨_, .inr ⟨_, _, _, rfl, ⟨.create s .source, .create s .backend, ?_, ?_⟩, nofun, ?_⟩⟩
    case refine_1 => exact fun _ => Bool.false_ne_true
    case refine_2 => exact fun _ => Bool.false_ne_true
    case refine_3 =>
      refine iff_of_false nofun fun h => ?_
      simp only [Bool.and_eq_true, Bool.not_eq_true'] at hst
      exact Bool.false_ne_true (hst.2.symm.trans (h.statefile hst.1))
  case neg =>
    simp only [hst]
    have ⟨ms₁, ho₁, h₁⟩ := initSource_spec e s
    have hb₁ : ms₁.Stands .backend .absent := ho₁.stands nofun (.create s .backend)
    obtain ⟨hu₁, he, hs₁, hn⟩ | ⟨hu, he, p, hp, hl⟩ := h₁ <;> simp only [he]
    case inr =>
      exact ⟨_, .inr ⟨_, p, _, rfl, ⟨hp, hb₁, nofun, fun _ => Bool.false_ne_true⟩, nofun,
        iff_of_false (ne_running_of_not_live hl) fun h => hu (h.comesUp .source)⟩⟩
    have hsl : (if s.has .source then Phase.created else .absent) ≠ .running := by split <;> nofun
    have ⟨ms₂, ho₂, h₂⟩ := initFilter_spec e s (ho₁.fresh nofun (.create s .filter)) hn
    have hb₂ : ms₂.Stands .backend .absent := ho₂.stands nofun hb₁
    have hs₂ : ms₂.Stands .source _ := ho₂.stands nofun hs₁
    obtain ⟨hu₂, hf, he⟩ | ⟨hu, label, hl, he⟩ := h₂ <;> simp only [he]
    case inr =>
      have hl : label ≠ .cleanup0 ∧ label ≠ .cleanup3 := by obtain rfl | rfl := hl <;> exact ⟨nofun, nofun⟩
      exact ⟨_, .inr ⟨_, _, _, rfl, ⟨hs₂, hb₂, (absurd · hl.1), fun _ => Bool.false_ne_true⟩, nofun,
        iff_of_false hsl fun h => hu ⟨h.comesUp .filter, h.filter⟩⟩⟩
    have hf₂ : ms₂.Fresh s .backend := ho₂.fresh nofun (ho₁.fresh nofun (.create s .backend))
    have ⟨ms₃, ho₃, h₃⟩ := initBackend_spec e s hf₂ hb₂
    have hs₃ : ms₃.Stands .source _ := ho₃.stands nofun hs₂
    obtain ⟨hb, hu₃, he, hb₃⟩ | ⟨hu, he, q, hq, hl⟩ := h₃ <;> simp only [he]
    case inr =>
      exact ⟨_, .inr ⟨_, _, _, rfl, ⟨hs₃, hq, nofun, nofun⟩, ne_running_of_not_live hl,
        iff_of_false hsl fun h => hu ⟨h.backend, h.comesUp .backend⟩⟩⟩
    have ⟨ms₄, ho₄, h₄⟩ := startSource_spec e s hs₃
    have hb₄ : ms₄.Stands .backend _ := ho₄.stands nofun hb₃
    obtain ⟨hr, he, hs₄⟩ | ⟨hr, he, hs₄⟩ := h₄ <;> simp only [he]
    case inr =>
      exact ⟨_, .inr ⟨_, _, _, rfl, ⟨hs₄, hb₄, nofun, nofun⟩, nofun, iff_of_false nofun fun h => hr h.starts⟩⟩
    have ⟨ms₅, ho₅, h₅⟩ := startModule_spec e s hb₄
    have hs₅ : ms₅.Stands .source _ := ho₅.stands nofun hs₄
    obtain ⟨hr', he, hb₅⟩ | ⟨hr', he, hb₅⟩ := h₅ <;> simp only [he]
    case inl => exact ⟨_, .inl ⟨fun h => h.fails hr', rfl, hb, hs₅, hb₅⟩⟩
    case inr =>
      refine ⟨_, .inr ⟨_, _, _, rfl, ⟨hs₅, hb₅, nofun, nofun⟩, nofun, fun h => ?_, fun h => if_pos h.source⟩⟩
      have hs : s.has .source := by
        by_contra hs
        simp [hs] at h
      refine ⟨hs, hb, ?_, fun kind => ?_, hf, hr hs, hr'⟩
      case refine_1 => simpa using hst
      case refine_2 => cases kind; exacts [hu₁, hu₂, hu₃]

theorem useModules_stands (uses : List Kind) (h : ms.Stands kind p) (hp : s.has kind → p = .running) :
    (useModules s uses ms).Stands kind p := by
  simp only [useModules]
  induction uses generalizing ms
  case nil          => exact h
  case cons k ks hi =>
    rw [List.filter_cons]
    split
    case isFalse  => exact hi h
    case isTrue hk =>
      rw [List.foldl_cons]
      apply hi
      by_cases hc : kind = k
      case neg => exact (Only.record ms k [.use]).stands hc h
      case pos =>
        obtain rfl := hc
        obtain rfl := hp hk
        exact h.record rfl rfl

theorem stopModules_follows (ipaddrs : List Ipaddr) (hb : s.has .backend)
    (hs : ms.Stands .source (if s.has .source then .running else .absent)) (hr : ms.Stands .backend .running) :
    Follows ((stopModules e s ipaddrs ms).calls .source) ∧
    Follows ((stopModules e s ipaddrs ms).calls .backend) := by
  simp only [stopModules, hb, if_true]
  have ⟨ms₁, he, hf₁, hr₁⟩ : ∃ ms₁, ms₁ = (if s.has .source then (ms.record .source
      [.stop ((library e s .source).any (·.stops))]).destroy .source else ms) ∧
      Follows (ms₁.calls .source) ∧ ms₁.Stands .backend .running := by
    refine ⟨_, rfl, ?_⟩
    split
    case isTrue h  =>
      rw [if_pos h] at hs
      have hst : (ms.record .source [.stop ((library e s .source).any (·.stops))]).Stands .source .stopped :=
        hs.record rfl rfl
      exact ⟨(follows_destroy hst).mpr nofun,
        (Only.destroy _ .source).stands nofun ((Only.record ms .source _).stands nofun hr)⟩
    case isFalse h =>
      rw [if_neg h] at hs
      exact ⟨(Module.follows_iff hs.phase).mpr Bool.false_ne_true, hr⟩
  have ⟨ms₂, he₂, ho⟩ : ∃ ms₂, ms₂ = (if s.has .filter then ms₁.destroy .filter else ms₁) ∧
      Only .filter ms₁ ms₂ := by
    refine ⟨_, rfl, ?_⟩
    split
    case isTrue  => exact .destroy ms₁ .filter
    case isFalse => exact .refl .filter ms₁
  rw [← he, ← he₂]
  have hst : (ms₂.record .backend ((ipaddrs.filter (·.banned)).map (fun _ => Call.use) ++
      [.stop ((library e s .backend).any (·.stops))])).Stands .backend .stopped := by
    have hr₂ : ms₂.Stands .backend .running := ho.stands nofun hr₁
    refine hr₂.record ?_ rfl
    have hu : ((ipaddrs.filter (·.banned)).map fun _ => Call.use).foldlM Phase.next .running = some .running := by
      refine Module.foldlM_next fun c hc => ?_
      obtain ⟨_, _, rfl⟩ := List.mem_map.mp hc
      rfl
    rw [List.foldlM_append, hu]
    rfl
  refine ⟨?_, (follows_destroy hst).mpr nofun⟩
  rw [(Only.destroy _ .backend).calls .source nofun, (Only.record ms₂ .backend _).calls .source nofun,
    ho.calls .source nofun]
  exact hf₁

-- From its initialization to its stop, a jail calls its source and its backend in the documented order if
-- and only if it does not give up after the source has been started.
theorem lifecycle_iff (e : Setup) (s : Settings) (uses : List Kind) (ipaddrs : List Ipaddr) :
    (∀ kind, kind ≠ .filter → Follows ((life e s uses ipaddrs).calls kind)) ↔ ¬Abandoned e s := by
  have hk {P : Kind → Prop} : (∀ kind, kind ≠ .filter → P kind) ↔ P .source ∧ P .backend :=
    ⟨fun h => ⟨h .source nofun, h .backend nofun⟩, fun h kind hn => by cases kind <;> simp_all⟩
  rw [hk]
  simp only [life, initJail]
  split
  case isTrue h =>
    have hc (kind : Kind) : Follows ((Modules.create s).calls kind) := ⟨.absent, rfl, Bool.false_ne_true⟩
    refine iff_of_true ⟨hc .source, hc .backend⟩ fun ha => ?_
    have hs : s.flags.hasSource = true := ha.source
    simp [hs] at h
  case isFalse =>
    have ⟨ms, h⟩ := initModules_spec e s
    obtain ⟨ha, he, hb, hs, hr⟩ | ⟨label, p, q, he, hl, hq, hp⟩ := h <;> simp only [he]
    case inl =>
      refine iff_of_true ?_ ha
      refine stopModules_follows ipaddrs hb (useModules_stands uses hs fun h => if_pos h) ?_
      exact useModules_stands uses hr fun _ => rfl
    case inr =>
      have ⟨hs, hb⟩ := hl.follows_iff
      simp only [Bool.false_eq_true, if_false]
      rw [hs, hb, and_iff_left hq, ← hp]

section Recorder

variable {β : Type}

structure Recorder (β : Type) where
  backend : β
  calls   : List Call

def Recorder.call (f : β → Bool × β) (c : Bool → Call) (r : Recorder β) : Bool × Recorder β :=
  ((f r.backend).1, ⟨(f r.backend).2, r.calls ++ [c (f r.backend).1]⟩)

instance [Backend β] : Backend (Recorder β) where
  ping     := Recorder.call Backend.ping fun _ => .use
  check ip := Recorder.call (Backend.check ip) fun _ => .use
  ban ip   := Recorder.call (Backend.ban ip) fun _ => .use
  unban ip := Recorder.call (Backend.unban ip) fun _ => .use
  stop     := Recorder.call Backend.stop .stop

def Worked (r r' : Recorder β) : Prop :=
  ∃ n, r'.calls = r.calls ++ List.replicate n .use

variable {r r' r'' : Recorder β}

theorem Worked.trans (h : Worked r r') (h' : Worked r' r'') : Worked r r'' := by
  have ⟨n, hn⟩ := h
  have ⟨n', hn'⟩ := h'
  exact ⟨n + n', by rw [hn', hn, List.append_assoc, List.replicate_append_replicate]⟩

theorem worked_call (f : β → Bool × β) (r : Recorder β) : Worked r (r.call f fun _ => .use).2 :=
  ⟨1, rfl⟩

variable [Backend β]

theorem worked_block (ip : CString) (r : Recorder β) : Worked r (Backend.block ip r) := by
  have h : Worked r (Backend.check ip r).2 := worked_call (Backend.check ip) r
  simp only [Backend.block]
  split
  case isTrue  => exact h
  case isFalse => exact h.trans (worked_call (Backend.ban ip) _)

theorem Moves.worked {inet : Inet} {x y : List Ipaddr × Recorder β} (m : Moves inet x y) : Worked x.2 y.2 := by
  refine m.invariant (P := fun y => Worked x.2 y.2) (fun y z m h => h.trans ?_) ⟨0, (List.append_nil _).symm⟩
  cases m
  case ping  => exact worked_call Backend.ping _
  case ban   => exact worked_block _ _
  case unban => exact worked_call (Backend.unban _) _
  all_goals exact ⟨0, (List.append_nil _).symm⟩

theorem worked_of_works {env : Env} {s s' : System (Recorder β)} (h : System.Works env s s')
    (hr : s.jail.settings.Running) : Worked s.world.backend s'.world.backend :=
  (h.moves hr).worked

theorem worked_blockAll (as : List Ipaddr) (r : Recorder β) : Worked r (blockAll as r) := by
  simp only [blockAll]
  induction as.filter (·.banned) generalizing r
  case nil          => exact ⟨0, (List.append_nil _).symm⟩
  case cons a as hi => exact (worked_block a.text r).trans (hi _)

theorem worked_of_starts {env : Env} {params : List Config.Param} {now : Int} {s s' : System (Recorder β)}
    (h : System.Starts env params now s s') : Worked s.world.backend s'.world.backend :=
  h.backend ▸ worked_blockAll ..

theorem recorded_unblockAll (as : List Ipaddr) (r : Recorder β) :
    (unblockAll as r).calls = r.calls ++ (as.filter (·.banned)).map fun _ => Call.use := by
  simp only [unblockAll]
  induction as.filter (·.banned) generalizing r
  case nil          => exact (List.append_nil _).symm
  case cons a as hi => simpa [Backend.unban, Recorder.call] using hi (Backend.unban a.text r).2

theorem recorded_of_stops {s s' : System (Recorder β)} (h : System.Stops s s')
    (hb : s.jail.settings.flags.hasBackend) :
    ∃ ok, s'.world.backend.calls =
      s.world.backend.calls ++ ((s.jail.ipaddrs.filter (·.banned)).map (fun _ => Call.use) ++ [.stop ok]) := by
  rw [h.backend hb]
  exact ⟨_, by rw [← List.append_assoc, ← recorded_unblockAll]; rfl⟩

end Recorder

section Example

-- The libraries of the jail `ssh`. The backend's does what it is told on start.
def sshSetup (starts : Bool) : Setup where
  config    := {
    main     := none
    csocket  := none
    defaults := none
    sources  := [⟨"files".toList, .source, [⟨"load".toList, "source_files.so".toList⟩]⟩]
    filters  := [⟨"preg".toList, .filter, [⟨"load".toList, "filter_preg.so".toList⟩]⟩]
    backends := [⟨"exec-ipset".toList, .backend, [
      ⟨"load".toList, "backend_exec.so".toList⟩, ⟨"start".toList, "/usr/sbin/ipset create".toList⟩]⟩]
    jails    := []
  }
  statefile := true
  dlopen kind _ := some {
    symbols := kind.handlers
    creates := true
    state₁  := kind.type
    regexps := true
    state₂  := kind.type ||| MOD_IS_READY
    starts  := kind ≠ .backend || starts
    stops   := true
  }

def sshSettings : Settings :=
  Settings.builtin.applyConfig (fun _ => 0) ⟨"ssh".toList, .jail, System.sshParams⟩

example : ¬Abandoned (sshSetup true) sshSettings :=
  fun h => h.fails (by decide)

-- The source is destroyed while it runs.
theorem not_lifecycle :
    (life (sshSetup false) sshSettings [] []).calls .source =
      [.create true, .state, .logcb, .state, .start true, .destroy] ∧
    ¬∀ kind, kind ≠ .filter → Follows ((life (sshSetup false) sshSettings [] []).calls kind) := by
  have hc : (life (sshSetup false) sshSettings [] []).calls .source =
      [.create true, .state, .logcb, .state, .start true, .destroy] := by decide
  refine ⟨hc, fun h => ?_⟩
  have ⟨_, hp, _⟩ := hc ▸ h .source nofun
  cases hp

end Example

end F2b.Jail
