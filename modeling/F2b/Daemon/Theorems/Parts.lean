import F2b.Daemon.Live
import F2b.Jail.Theorems.Simulation

-- The jails of the daemon do not get in each other's way: each of them lives as if it were alone, by what the daemon
-- does that has to do with it.

open F2b.System (path)

namespace F2b

variable {γ μ : Type} [Backend γ] {env : Env}

section Paths

-- The names of the state files are not cut off.
def Env.Short (env : Env) : Prop :=
  env.statedir.length + CONFIG_KEY_MAX + 11 ≤ PATH_MAX

variable {n m : CString}

theorem path_eq (hs : env.Short) (hn : n.length < CONFIG_KEY_MAX) :
    path env n = env.statedir ++ '/' :: n ++ ".state".toList := by
  refine CString.strlcpy_of_lt ?_
  simp only [Env.Short, List.length_append, List.length_cons] at hs ⊢
  have : ".state".toList.length = 6 := rfl
  omega

theorem newPath_eq (hs : env.Short) (hn : n.length < CONFIG_KEY_MAX) :
    Statefile.newPath (path env n) = env.statedir ++ '/' :: n ++ ".state.new".toList := by
  rw [Statefile.newPath, path_eq hs hn, List.append_assoc, CString.strlcpy_of_lt]
  · rfl
  · simp only [Env.Short, List.length_append, List.length_cons] at hs ⊢
    have : ".state".toList.length = 6 ∧ ".new".toList.length = 4 := ⟨rfl, rfl⟩
    omega

-- No jail writes to the state file of another one.
theorem path_ne (hs : env.Short) (hn : n.length < CONFIG_KEY_MAX) (hm : m.length < CONFIG_KEY_MAX) (h : n ≠ m) :
    path env n ≠ path env m ∧ path env n ≠ Statefile.newPath (path env m) := by
  rw [newPath_eq hs hm, path_eq hs hn, path_eq hs hm]
  constructor
  · intro he
    -- What stands around the names is the same.
    simp only [List.append_assoc, List.append_cancel_left_eq, List.cons_append, List.cons.injEq, true_and] at he
    exact h (List.append_cancel_right he)
  · intro he
    -- The last characters differ.
    have hl := congrArg (fun s => s.reverse.head?) he
    simp at hl

end Paths

namespace Backends

-- Of these backends only that of one jail may be other than before.
def Only (name : CString) (of : CString → γ) (b : Backends γ) (g : γ) : Prop :=
  b.current = name ∧ b.of name = g ∧ ∀ k, k ≠ name → b.of k = of k

theorem sim_only (name : CString) (of : CString → γ) : Backend.Sim (Only name of) := by
  have hc (f : γ → Bool × γ) {b : Backends γ} {g : γ} (h : Only name of b g) :
      (call f b).1 = (f g).1 ∧ Only name of (call f b).2 (f g).2 := by
    obtain ⟨rfl, rfl, ho⟩ := h
    refine ⟨rfl, rfl, Function.update_self .., fun k hk => ?_⟩
    rw [← ho k hk]
    exact Function.update_of_ne hk ..
  exact ⟨hc _, fun ip => hc _, fun ip => hc _, fun ip => hc _, hc _⟩

end Backends

open Backends (Only sim_only)

-- What belongs to one jail of the world that all jails act on.
structure Part (env : Env) (name : CString) (w : World (Backends γ)) (v : World γ) : Prop where
  backend : w.backend.of name = v.backend
  file    : (w.disk (path env name)).getD [] = (v.disk (path env name)).getD []

-- What the work of the jail `k` leaves alone.
structure Leaves (env : Env) (k : CString) (w w' : World (Backends γ)) : Prop where
  backend : ∀ n, n ≠ k → w'.backend.of n = w.backend.of n
  file    : ∀ q, q ≠ path env k → q ≠ Statefile.newPath (path env k) → w'.disk q = w.disk q

namespace Part

omit [Backend γ]

variable {name k : CString} {w w' : World (Backends γ)} {v v' : World γ}

theorem own (h : Part env name w v) : World.Sim (Only name w.backend.of) (path env name) w.disk (w.on name) v :=
  ⟨⟨rfl, h.backend, fun _ _ => rfl⟩, h.file, fun _ _ _ => rfl⟩

theorem of_own {of : CString → γ} {D : Disk} (h : World.Sim (Only name of) (path env name) D w v) :
    Part env name w v :=
  ⟨h.backend.2.1, h.file⟩

theorem leaves (h : World.Sim (Only k w.backend.of) (path env k) w.disk w' v) : Leaves env k w w' :=
  ⟨h.backend.2.2, h.frame⟩

theorem other (hs : env.Short) (hn : name.length < CONFIG_KEY_MAX) (hk : k.length < CONFIG_KEY_MAX) (hne : name ≠ k)
    (h : Part env name w v) (hw : Leaves env k w w') : Part env name w' v := by
  have ⟨hp, hq⟩ := path_ne hs hn hk hne
  exact ⟨(hw.backend name hne).trans h.backend, by rw [hw.file _ hp hq, h.file]⟩

theorem exists_part (name : CString) (w : World (Backends γ)) :
    Part env name w ⟨w.backend.of name, w.events, w.disk⟩ :=
  ⟨rfl, rfl⟩

end Part

-- The jails that are up have names of their own, and the state files of these.
structure Named (env : Env) (jails : List Jail) : Prop where
  nodup : (jails.map (·.name)).Nodup
  filed : ∀ jail ∈ jails, jail.name.length < CONFIG_KEY_MAX ∧
    (jail.settings.flags.hasState → jail.sfile.path = path env jail.name)

-- Only what jails do besides their work is other than before.
def Alike (jail jail' : Jail) : Prop :=
  jail'.name = jail.name ∧ jail'.settings.flags.hasState = jail.settings.flags.hasState ∧
  jail'.sfile.path = jail.sfile.path

omit [Backend γ] in
theorem map_name_of_alike {jails jails' : List Jail} (ha : List.Forall₂ Alike jails jails') :
    jails'.map (·.name) = jails.map (·.name) := by
  have hf : List.Forall₂ (· = ·) (jails.map (·.name)) (jails'.map (·.name)) :=
    List.forall₂_map_left_iff.mpr (List.forall₂_map_right_iff.mpr (ha.imp fun _ _ h => h.1.symm))
  exact (List.forall₂_eq_eq_eq ▸ hf : _ = _).symm

omit [Backend γ] in
theorem Named.alike {jails jails' : List Jail} (h : Named env jails) (ha : List.Forall₂ Alike jails jails') :
    Named env jails' := by
  refine ⟨map_name_of_alike ha ▸ h.nodup, ?_⟩
  have hf := h.filed
  clear h
  induction ha
  case nil             => exact List.forall_mem_nil _
  case cons hj _ hi =>
    have ⟨⟨hl, hp⟩, hf⟩ := List.forall_mem_cons.mp hf
    obtain ⟨hn, hs, hq⟩ := hj
    refine List.forall_mem_cons.mpr ⟨⟨hn ▸ hl, fun h => ?_⟩, hi hf⟩
    rw [hq, hn, hp (hs ▸ h)]

omit [Backend γ] in
theorem find?_eq_none_iff {jails : List Jail} {name : CString} :
    jails.find? (·.name = name) = none ↔ name ∉ jails.map (·.name) := by
  simp

omit [Backend γ] in
theorem Named.tail {jail : Jail} {jails : List Jail} (h : Named env (jail :: jails)) :
    (∀ j ∈ jails, j.name ≠ jail.name) ∧ Named env jails := by
  have ⟨hn, hd⟩ := List.nodup_cons.mp h.nodup
  exact ⟨fun j hj he => hn (List.mem_map.mpr ⟨j, hj, he⟩), hd, (List.forall_mem_cons.mp h.filed).2⟩

section Loop

omit [Backend γ]

variable {name : CString} {jail jail' : Jail} {jails jails' : List Jail} {w w' : World (Backends γ)} {v : World γ}
variable {f : Jail → World (Backends γ) → Except Fault (Jail × World (Backends γ))}
  {g : Jail → World γ → Except Fault (Jail × World γ)}

-- The work `f` of a jail, done by itself, is `g`.
structure Local (env : Env) (f : Jail → World (Backends γ) → Except Fault (Jail × World (Backends γ)))
    (g : Jail → World γ → Except Fault (Jail × World γ)) : Prop where
  alike : ∀ {jail w jail' w'}, f jail w = .ok (jail', w') → Alike jail jail'
  sim   : ∀ {of D jail w v jail' w'}, (jail.settings.flags.hasState → jail.sfile.path = path env jail.name) →
    World.Sim (Only jail.name of) (path env jail.name) D w v → f jail w = .ok (jail', w') →
    ∃ v', g jail v = .ok (jail', v') ∧ World.Sim (Only jail.name of) (path env jail.name) D w' v'

theorem loop_cons (h : Live.loop f (jail :: jails) w = .ok (jails', w')) :
    ∃ jail' w₁ js, f jail (w.on jail.name) = .ok (jail', w₁) ∧ Live.loop f jails w₁ = .ok (js, w') ∧
    jails' = jail' :: js := by
  simp only [Live.loop, bind, Except.bind] at h
  split at h
  case h_1    => cases h
  case h_2 hf =>
    split at h
    case h_1    => cases h
    case h_2 hl =>
      obtain ⟨rfl, rfl⟩ := Prod.mk.inj (Except.ok.inj h)
      exact ⟨_, _, _, hf, hl, rfl⟩

theorem loop_alike (hf : Local env f g) (h : Live.loop f jails w = .ok (jails', w')) :
    List.Forall₂ Alike jails jails' := by
  induction jails generalizing w jails'
  case nil             =>
    obtain ⟨rfl, rfl⟩ := Prod.mk.inj (Except.ok.inj h)
    exact .nil
  case cons jail jails hi =>
    obtain ⟨jail', w₁, js, hj, hl, rfl⟩ := loop_cons h
    exact .cons (hf.alike hj) (hi hl)

theorem loop_other (hs : env.Short) (hn : name.length < CONFIG_KEY_MAX) (hf : Local env f g) (hj : Named env jails)
    (hne : ∀ j ∈ jails, j.name ≠ name) (h : Live.loop f jails w = .ok (jails', w')) (hp : Part env name w v) :
    Part env name w' v := by
  induction jails generalizing w jails'
  case nil             =>
    obtain ⟨rfl, rfl⟩ := Prod.mk.inj (Except.ok.inj h)
    exact hp
  case cons jail jails hi =>
    obtain ⟨jail', w₁, js, hw, hl, rfl⟩ := loop_cons h
    have ⟨hk, hne⟩ := List.forall_mem_cons.mp hne
    have ⟨hlen, hpath⟩ := hj.filed jail List.mem_cons_self
    obtain ⟨_, _, hsim⟩ := hf.sim hpath (Part.exists_part jail.name w).own hw
    exact hi hj.tail.2 hne hl (hp.other hs hn hlen hk.symm (Part.leaves hsim))

theorem loop_own (hs : env.Short) (hn : name.length < CONFIG_KEY_MAX) (hf : Local env f g) (hj : Named env jails)
    (hfind : jails.find? (·.name = name) = some jail) (h : Live.loop f jails w = .ok (jails', w'))
    (hp : Part env name w v) :
    ∃ jail' v', g jail v = .ok (jail', v') ∧ jails'.find? (·.name = name) = some jail' ∧ Part env name w' v' := by
  induction jails generalizing w jails'
  case nil           => cases hfind
  case cons a as hi =>
    obtain ⟨a', w₁, js, hw, hl, rfl⟩ := loop_cons h
    have ⟨hlen, hpath⟩ := hj.filed a List.mem_cons_self
    have ⟨hother, hj'⟩ := hj.tail
    have hname : a'.name = a.name := (hf.alike hw).1
    by_cases ha : a.name = name
    case pos =>
      subst ha
      rw [List.find?_cons_of_pos (by simp)] at hfind
      obtain rfl := Option.some.inj hfind
      obtain ⟨v', hg, hsim⟩ := hf.sim hpath hp.own hw
      refine ⟨a', v', hg, List.find?_cons_of_pos (by simp [hname]), ?_⟩
      exact loop_other hs hlen hf hj' hother hl (.of_own hsim)
    case neg =>
      rw [List.find?_cons_of_neg (by simp [ha])] at hfind
      obtain ⟨_, _, hsim⟩ := hf.sim hpath (Part.exists_part a.name w).own hw
      obtain ⟨jail', v', hg, hfj, hp'⟩ := hi hj' hfind hl (hp.other hs hn hlen (Ne.symm ha) (Part.leaves hsim))
      exact ⟨jail', v', hg, by rwa [List.find?_cons_of_neg (by simp [hname, ha])], hp'⟩

-- The loop as one jail sees it, whether it is in the list or not.
theorem loop_part (hs : env.Short) (hn : name.length < CONFIG_KEY_MAX) (hf : Local env f g) (hj : Named env jails)
    (h : Live.loop f jails w = .ok (jails', w')) (hp : Part env name w v) :
    match jails.find? (·.name = name) with
    | none      => jails'.find? (·.name = name) = none ∧ Part env name w' v
    | some jail => ∃ jail' v', g jail v = .ok (jail', v') ∧ jails'.find? (·.name = name) = some jail' ∧
      Part env name w' v' := by
  cases hfind : jails.find? (·.name = name)
  case none      =>
    have hm := find?_eq_none_iff.mp hfind
    refine ⟨find?_eq_none_iff.mpr (map_name_of_alike (loop_alike hf h) ▸ hm), ?_⟩
    exact loop_other hs hn hf hj (fun j hj he => hm (List.mem_map.mpr ⟨j, hj, he⟩)) h hp
  case some jail => exact loop_own hs hn hf hj hfind h hp

end Loop

section Works

open Jail (process_file process_settings process_sim stop_sim)

theorem local_pass (passes : CString → Pass) :
    Local (γ := γ) env (fun jail => (passes jail.name).run env jail) fun jail => (passes jail.name).run env jail where
  alike h := by
    have ⟨hn, hp⟩ := process_file h
    exact ⟨hn, by rw [process_settings h], hp⟩
  sim hp hsim h := process_sim (sim_only _ _) hp hsim h

theorem local_stop (stops : CString → Bool) :
    Local (γ := γ) env (fun jail w => .ok (jail.stop (stops jail.name) w).2)
      fun jail w => .ok (jail.stop (stops jail.name) w).2 where
  alike {jail w jail' w'} h := by
    have he : (jail.stop (stops jail.name) w).2.1 =
        { jail with ipaddrs := [], settings.flags.configured := false } := by
      simp only [Jail.stop]
      split <;> rfl
    obtain rfl : _ = jail' := (congrArg Prod.fst (Except.ok.inj h) :)
    rw [he]
    exact ⟨rfl, rfl, rfl⟩
  sim {of D jail w v jail' w'} hp hsim h := by
    obtain ⟨_, _, _, _, h₁, h₂, hv⟩ := stop_sim jail (sim_only jail.name of) (stops jail.name) hsim
    simp only [h₁, Except.ok.injEq, Prod.mk.injEq] at h
    obtain ⟨rfl, rfl⟩ := h
    exact ⟨_, by simp only [h₂], hv⟩

theorem loop_stop (stops : CString → Bool) (jails : List Jail) (w : World (Backends γ)) :
    ∃ js, Live.loop (fun jail w => .ok (jail.stop (stops jail.name) w).2) jails w =
      .ok (js, Live.stopAll stops jails w) := by
  induction jails generalizing w
  case nil             => exact ⟨[], rfl⟩
  case cons jail jails hi =>
    obtain ⟨js, h⟩ := hi (jail.stop (stops jail.name) (w.on jail.name)).2.2
    exact ⟨_, by simp only [Live.loop, bind, Except.bind, h]; rfl⟩

end Works

end F2b
