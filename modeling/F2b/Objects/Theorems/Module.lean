import F2b.Objects.Module

-- The life cycle of a module, and how far its loading brings it.

namespace F2b.Module

-- The documented workflow: a module is created, configured, started at most once, used while it runs,
-- stopped if it was started, and destroyed.
inductive Phase
  | absent
  | created
  | running
  | failed
  | stopped
  | destroyed
  deriving DecidableEq

namespace Phase

def next : Phase → Call → Option Phase
  | absent,  .create ok => some (if ok then created else absent)
  | created, .state     => some created
  | created, .logcb     => some created
  | created, .config _  => some created
  | created, .loadFile  => some created
  | created, .start ok  => some (if ok then running else failed)
  | running, .use       => some running
  | running, .stop _    => some stopped
  | created, .destroy   => some destroyed
  | failed,  .destroy   => some destroyed
  | stopped, .destroy   => some destroyed
  | _,       _          => none

def live : Phase → Bool
  | absent    => false
  | destroyed => false
  | _         => true

end Phase

-- The phase after some calls, none if one of them was out of order.
def phase (calls : List Call) : Option Phase :=
  calls.foldlM Phase.next .absent

def Follows (calls : List Call) : Prop :=
  ∃ p, phase calls = some p ∧ ¬p.live

variable {calls calls' : List Call} {p p' : Phase} {c : Call}

theorem phase_append : phase (calls ++ calls') = (phase calls).bind (calls'.foldlM Phase.next ·) :=
  List.foldlM_append

theorem phase_concat (h : phase calls = some p) : phase (calls ++ [c]) = p.next c := by
  rw [phase_append, h, Option.bind_some, List.foldlM_cons]
  exact bind_pure _

theorem follows_iff (h : phase calls = some p) : Follows calls ↔ ¬p.live := by
  rw [Follows, h]
  exact ⟨fun ⟨_, hp, hl⟩ => Option.some.inj hp ▸ hl, fun hl => ⟨p, rfl, hl⟩⟩

theorem foldlM_next (h : ∀ c ∈ calls, p.next c = some p) : calls.foldlM Phase.next p = some p := by
  induction calls
  case nil          => rfl
  case cons c cs hi =>
    have ⟨hc, hcs⟩ := List.forall_mem_cons.mp h
    rw [List.foldlM_cons, hc]
    exact hi hcs

-- The handle of a module has an instance in exactly the phases that have one.
structure Stands (m : Module) (calls : List Call) (p : Phase) : Prop where
  phase : Module.phase calls = some p
  live  : (m.h && m.cfg) = p.live

theorem Stands.alloc : Stands .alloc [] .absent :=
  ⟨rfl, rfl⟩

theorem Stands.follows_destroy {m : Module} (h : Stands m calls p) :
    Follows (calls ++ m.destroy) ↔ p ≠ .running := by
  have hd : m.destroy = if p.live then [.destroy] else [] := by rw [destroy, h.live]
  rw [hd]
  cases p
  case absent    => exact iff_of_true ⟨_, (List.append_nil calls).symm ▸ h.phase, by simp [Phase.live]⟩ (by simp)
  case destroyed => exact iff_of_true ⟨_, (List.append_nil calls).symm ▸ h.phase, by simp [Phase.live]⟩ (by simp)
  case running   =>
    refine iff_of_false (fun ⟨_, hf, _⟩ => ?_) (by simp)
    have hc : Module.phase (calls ++ [.destroy]) = none := phase_concat h.phase
    exact Option.some_ne_none _ (hf.symm.trans hc)
  all_goals exact iff_of_true ⟨.destroyed, phase_concat h.phase, by simp [Phase.live]⟩ (by simp)

def Library.usable (kind : Kind) (lib : Library) : Bool :=
  kind.handlers.all (lib.symbols.contains ·) && lib.creates && lib.state₁ &&& kind.type ≠ 0 &&
  (loadFile kind lib).1 && !lib.state₂.msb && lib.state₂ &&& MOD_WRONG_API = 0 &&
  lib.state₂ &&& MOD_IS_READY ≠ 0

-- A module is configured, or nothing is left of it.
structure Loaded (ok : Bool) (lib : Option Library) (r : Bool × Module × List Call) : Prop where
  ok    : r.1 = ok
  up    : r.1 → Stands r.2.1 r.2.2 .created ∧ lib.map (·.state₂) = some r.2.1.flags
  down  : ¬r.1 → ∃ p, Stands r.2.1 r.2.2 p ∧ ¬p.live

theorem Loaded.cleanup {m : Module} {lib : Option Library} (h : m.h)
    (hp : phase calls = some (if m.cfg then .created else .absent)) :
    Loaded false lib (m.cleanup calls) := by
  simp only [Module.cleanup, if_pos h]
  refine ⟨rfl, fun h => (Bool.false_ne_true h).elim, fun _ => ?_⟩
  cases hc : m.cfg
  case false => exact ⟨.absent, ⟨by simpa [hc] using hp, rfl⟩, by simp [Phase.live]⟩
  case true  =>
    simp only [hc, if_true] at hp
    exact ⟨.destroyed, ⟨phase_concat hp, rfl⟩, by simp [Phase.live]⟩

theorem Loaded.guard {m : Module} {lib : Option Library} {ok : Bool} {c : Prop} [Decidable c]
    {r : Bool × Module × List Call} (hc : c → ok = false) (h : m.h)
    (hp : phase calls = some (if m.cfg then .created else .absent)) (hr : ¬c → Loaded ok lib r) :
    Loaded ok lib (if c then m.cleanup calls else r) := by
  split
  case isTrue h' => exact hc h' ▸ .cleanup h hp
  case isFalse h => exact hr h

theorem phase_configured (kind : Kind) (lib : Library) (config : Config.Section) :
    phase ([.create true, .state] ++ .logcb :: configCalls config ++ (loadFile kind lib).2) = some .created := by
  rw [List.append_assoc, phase_append]
  apply foldlM_next
  intro c hc
  simp only [List.cons_append, List.mem_cons, List.mem_append, configCalls, List.mem_map] at hc
  obtain rfl | ⟨_, _, rfl⟩ | hc := hc
  case inl     => rfl
  case inr.inl => rfl
  case inr.inr =>
    simp only [loadFile] at hc
    split at hc
    case isTrue  => obtain rfl := List.mem_singleton.mp hc; rfl
    case isFalse => cases hc

theorem load_loaded (kind : Kind) (lib : Library) (config : Config.Section) :
    Loaded (lib.usable kind) (some lib) (load kind lib config .alloc) := by
  have hp := phase_configured kind lib config
  have hp' := (phase_concat (c := .state) hp).trans rfl
  have hf {b : Bool} (h : !b) : b = false := by simpa using h
  simp only [load]
  refine .guard (fun h => ?_) rfl rfl fun h₁ => ?_
  case refine_1 => simp only [Library.usable, hf h, Bool.false_and]
  refine .guard (fun h => ?_) rfl rfl fun h₂ => ?_
  case refine_1 => simp [Library.usable, hf h]
  refine .guard (fun h => by simp [Library.usable, h]) rfl rfl fun h₃ => ?_
  refine .guard (fun h => ?_) rfl hp fun h₄ => ?_
  case refine_1 => simp [Library.usable, hf h]
  refine .guard (fun h => by simp [Library.usable, h]) rfl hp' fun h₅ => ?_
  refine .guard (fun h => ?_) rfl hp' fun h₆ => ?_
  case refine_1 => simp only [Library.usable, decide_eq_false h, Bool.and_false, Bool.false_and]
  split
  case isTrue h₇ =>
    refine ⟨?_, fun _ => ⟨⟨hp', rfl⟩, rfl⟩, fun h => absurd rfl h⟩
    simp_all [Library.usable]
  case isFalse h =>
    have hu : lib.usable kind = false := by simp only [Library.usable, decide_eq_false h, Bool.and_false]
    exact hu ▸ .cleanup rfl hp'

def findLibrary (dlopen : CString → Option Library) (config : Config.Section) : Option Library :=
  (config.param.find? (·.name = LIBRARY_PARAM)).bind fun param => dlopen param.value

theorem init_loaded (kind : Kind) (dlopen : CString → Option Library) (config : Config.Section) :
    Loaded ((findLibrary dlopen config).any (·.usable kind)) (findLibrary dlopen config)
      (init kind dlopen config .alloc) := by
  have hn {lib : Option Library} : Loaded false lib (false, .alloc, []) :=
    ⟨rfl, fun h => (Bool.false_ne_true h).elim, fun _ => ⟨_, .alloc, by simp [Phase.live]⟩⟩
  simp only [init, findLibrary]
  cases config.param.find? (·.name = LIBRARY_PARAM)
  case none       => exact hn
  case some param =>
    simp only [Option.bind_some]
    cases dlopen param.value
    case none     => exact hn
    case some lib => exact load_loaded kind lib config

end F2b.Module
