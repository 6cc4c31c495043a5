import F2b.Csocket.Poll
import F2b.Daemon.Appconfig
import F2b.Daemon.Theorems.Jails
import F2b.Objects.Theorems.Definitions
import F2b.Objects.Theorems.Handlers

-- Options that are defined several times, in one file or in several.

namespace F2b

open Config (Param Section lastDef collect definitions paramFind)
open Overwrite

namespace Module.Kind

def sectionType : Kind → SectionType
  | source  => .source
  | filter  => .filter
  | backend => .backend

end Module.Kind

namespace Jail.Settings

variable (atof : CString → Rat)

-- The fields of the options whose values are names with an init string.
def compound : Key → List (Field (applyParam atof) CString)
  | .source  => [sourceNameField atof, sourceInitField atof]
  | .filter  => [filterNameField atof, filterInitField atof]
  | .backend => [backendNameField atof, backendInitField atof]
  | _        => []

-- A field that the option `k` writes with each value, or with some.
structure OfKey {α : Type} (f : Field (applyParam atof) α) (k : Key) : Prop where
  other : ∀ p : Param, p.name ≠ k.name → f.write p = none
  part  : (∃ g ∈ compound atof k, (⟨α, f⟩ : Σ α : Type, Field (applyParam atof) α) = ⟨_, g⟩) ∨
    ∀ p : Param, p.name = k.name → (f.write p).isSome

variable {atof}

theorem ofKey_plain {α : Type} {f : Field (applyParam atof) α} (k : Key) (value : CString → α)
    (hf : ∀ p : Param, f.write p = if p.name = k.name then some (value p.value) else none) : OfKey atof f k where
  other p hp := (hf p).trans (if_neg hp)
  part       := .inr fun p hp => by rw [hf p, if_pos hp]; rfl

theorem ofKey_compound {f : Field (applyParam atof) CString} (k : Key) (value : CString → Option CString)
    (hf : ∀ p : Param, f.write p = if p.name = k.name then value p.value else none)
    (hm : f ∈ compound atof k) : OfKey atof f k where
  other p hp := (hf p).trans (if_neg hp)
  part       := .inl ⟨f, hm, rfl⟩

theorem ofKey_of_fields : ∀ f ∈ fields atof, ∃ k : Key, OfKey atof f.2 k := by
  simp only [fields, List.forall_mem_cons]
  exact ⟨
    ⟨_, ofKey_plain .enabled yes fun _ => rfl⟩,
    ⟨_, ofKey_plain .state (fun _ => true) fun _ => rfl⟩,
    ⟨_, ofKey_plain .source (fun _ => true) fun _ => rfl⟩,
    ⟨_, ofKey_plain .filter (fun _ => true) fun _ => rfl⟩,
    ⟨_, ofKey_plain .backend (fun _ => true) fun _ => rfl⟩,
    ⟨_, ofKey_plain .banscore score fun _ => rfl⟩,
    ⟨_, ofKey_plain .findtime (positive · DEFAULT_FINDTIME) fun _ => rfl⟩,
    ⟨_, ofKey_plain .bantime (positive · DEFAULT_BANTIME) fun _ => rfl⟩,
    ⟨_, ofKey_plain .expiretime (positive · DEFAULT_EXPIRETIME) fun _ => rfl⟩,
    ⟨_, ofKey_plain .findtimeExtend atof fun _ => rfl⟩,
    ⟨_, ofKey_plain .bantimeExtend atof fun _ => rfl⟩,
    ⟨_, ofKey_plain .expiretimeExtend atof fun _ => rfl⟩,
    ⟨_, ofKey_compound .source compoundName (fun _ => rfl) (by simp [compound])⟩,
    ⟨_, ofKey_compound .source compoundInit (fun _ => rfl) (by simp [compound])⟩,
    ⟨_, ofKey_compound .filter compoundName (fun _ => rfl) (by simp [compound])⟩,
    ⟨_, ofKey_compound .filter compoundInit (fun _ => rfl) (by simp [compound])⟩,
    ⟨_, ofKey_compound .backend compoundName (fun _ => rfl) (by simp [compound])⟩,
    ⟨_, ofKey_compound .backend compoundInit (fun _ => rfl) (by simp [compound])⟩,
    List.forall_mem_nil _⟩

theorem mem_fields_of_compound {k : Key} {g : Field (applyParam atof) CString} (hg : g ∈ compound atof k) :
    (⟨_, g⟩ : Σ α : Type, Field (applyParam atof) α) ∈ fields atof ∧
    ∀ p : Param, p.name ≠ k.name → g.write p = none := by
  cases k <;> simp only [compound, List.mem_cons, List.not_mem_nil, or_false] at hg
  case source | filter | backend =>
    obtain rfl | rfl := hg <;> exact ⟨by simp [fields], fun p hp => if_neg hp⟩

-- Filling the settings again and again with one option leaves what the last value gives if and only if the
-- compound fields are renewed.
theorem foldl_dropEarlier_iff (s : Settings) (option : CString) (ds : List Param) :
    ds.foldl (applyParam atof) s = (dropEarlier (·.name = option) ds).foldl (applyParam atof) s ↔
    ∀ k : Key, k.name = option → ∀ f ∈ compound atof k, f.Renewed s (·.name = option) ds := by
  rw [eq_iff_fields atof (by simp only [configured_foldl])]
  constructor
  case mp  =>
    rintro h k rfl f hf
    have ⟨hm, hw⟩ := mem_fields_of_compound hf
    exact (f.get_dropEarlier_iff (fun p hp => hw p (by simpa using hp)) s ds).mp (h _ hm)
  case mpr =>
    intro h ⟨α, f⟩ hf
    have ⟨k, hk⟩ := ofKey_of_fields ⟨α, f⟩ hf
    by_cases ho : k.name = option
    case neg =>
      exact (f.get_dropEarlier (fun p hp => hk.other p fun he => ho (he ▸ of_decide_eq_true hp)) s ds).symm
    case pos =>
      subst ho
      refine (f.get_dropEarlier_iff (fun p hp => hk.other p (by simpa using hp)) s ds).mpr ?_
      obtain ⟨g, hg, he⟩ | hs := hk.part
      case inl => cases he; exact h k rfl f hg
      case inr =>
        refine .inl fun p hp => hs p ?_
        simpa using (List.mem_filter.mp (List.mem_of_getLast? hp)).2

end Jail.Settings

-- All that read the options of a section: the daemon itself, the loader, which looks for other files, the
-- control socket, the defaults of the jails, the jails, and for each module the code that opens its library
-- and the module.
inductive Reader
  | appconfig (sys : Appconfig.Sys) (a : Appconfig)
  | includes
  | csocket (sockCreate : CString → Option Conn.SockType) (random : CString)
  | defaults (atof : CString → Rat) (s : Jail.Settings)
  | jail (atof : CString → Rat) (s : Jail.Settings)
  | library (kind : Module.Kind)
  | module (d : Module.Driver) (cfg : d.Cfg)

namespace Reader

def type : Reader → SectionType
  | appconfig _ _ => .main
  | includes      => .main
  | csocket _ _   => .csocket
  | defaults _ _  => .defaults
  | jail _ _      => .jail
  | library kind  => kind.sectionType
  | module d _    => d.kind.sectionType

def Outcome : Reader → Type
  | appconfig _ _ => Appconfig
  | includes      => Option CString
  | csocket _ _   => Bool × Csock
  | defaults _ _  => Jail.Settings
  | jail _ _      => Jail.Settings
  | library _     => Option CString
  | module d _    => d.Cfg

def read : (r : Reader) → Section → r.Outcome
  | appconfig sys a           => fun sec => a.update sys (some sec)
  | includes                  => fun sec => (paramFind sec.param "includes".toList).map (·.value)
  | csocket sockCreate random => fun sec => Csock.create sockCreate random sec
  | defaults atof s           => fun sec => s.applyConfig atof sec
  | jail atof s               => fun sec => s.applyConfig atof sec
  | library _                 => fun sec => (paramFind sec.param Module.LIBRARY_PARAM).map (·.value)
  | module d cfg              => fun sec => d.configure cfg sec

def repeatable : Reader → List CString
  | csocket _ _ => ["listen".toList]
  | module d _  => d.repeatable
  | _           => []

-- The texts that have been processed when a section is read: for 'includes' only that of the main file.
def seen : Reader → List CString → List CString
  | includes, texts => texts.take 1
  | _,        texts => texts

-- The definitions that a reader sees of a section, and those that come later of the option.
def defs (r : Reader) (option name : CString) (texts : List CString) : List Param :=
  let early := definitions (r.seen texts) (r.type, name)
  early ++ ((definitions texts (r.type, name)).drop early.length).filter (·.name = option)

-- The last definition of an option takes effect: the outcome is the one without the earlier ones.
def LastWins (r : Reader) (option : CString) (sec : Section) (ds : List Param) : Prop :=
  r.read sec = r.read { sec with param := collect sec.type (dropEarlier (·.name = option) ds) }

-- The last definition of 'includes' in the main file, as the first one of a library, has the value of the last one of
-- all. In a jail, the last value of a compound option sets both parts, or those that it does not set have not been
-- changed by the earlier values. `early` are the definitions that are seen.
def Renewed (option : CString) (early ds : List Param) : Reader → Prop
  | includes    => option = "includes".toList →
      (lastDef option early).map (·.value) = (lastDef option ds).map (·.value)
  | library _   => option = Module.LIBRARY_PARAM →
      (paramFind ds option).map (·.value) = (lastDef option ds).map (·.value)
  | jail atof s => ∀ k : Jail.Settings.Key, k.name = option → ∀ f ∈ Jail.Settings.compound atof k,
      f.Renewed s (·.name = option) ds
  | _           => True

end Reader

-- The loader and the code that opens libraries read their options as these readers do.
theorem includes_eq {c : Config} (hv : Config.Valid c) :
    c.includes = (c.find (Reader.includes.type, [])).bind Reader.includes.read := by
  have hf : c.find (SectionType.main, []) = c.main := by
    cases hm : c.main
    case none     => simp [Config.find, Registry.find, Config.sections, hm]
    case some sec =>
      have hn : sec.name = [] := hv.nameless .main rfl sec (by simp [Config.sections, hm])
      simp [Config.find, Registry.find, Config.sections, hm, hn]
  rw [Reader.type, hf, Config.includes]
  cases c.main <;> rfl

theorem init_eq (kind : Module.Kind) (dlopen : CString → Option Module.Library) (sec : Section) (m : Module) :
    Module.init kind dlopen sec m =
    match (Reader.library kind).read sec with
    | none      => (false, m, [])
    | some path => (dlopen path).elim (Module.cleanup { m with h := false } []) fun lib => m.load kind lib sec := by
  simp only [Module.init, Reader.read, paramFind]
  cases sec.param.find? (·.name = Module.LIBRARY_PARAM)
  case none       => rfl
  case some param => cases hd : dlopen param.value <;> simp [hd]

section Same

variable {option : CString} {ds : List Param}

theorem lastDef_dropEarlier (name : CString) :
    lastDef name (dropEarlier (·.name = option) ds) = lastDef name ds := by
  by_cases hn : name = option
  case pos =>
    subst hn
    rw [lastDef, filter_dropEarlier_self, lastDef]
    cases (ds.filter (·.name = name)).getLast? <;> rfl
  case neg =>
    rw [lastDef, filter_dropEarlier, lastDef]
    intro p hp hq
    exact hn ((of_decide_eq_true hp).symm.trans (of_decide_eq_true hq))

theorem paramFind_eq (list : List Param) (name : CString) :
    paramFind list name = (list.filter (·.name = name)).head? := by
  rw [paramFind, List.head?_filter]

theorem filter_collect_dropEarlier {type : SectionType} (h : Config.Loader.replaces type) (name : CString) :
    (collect type (dropEarlier (·.name = option) ds)).filter (·.name = name) =
    (collect type ds).filter (·.name = name) := by
  rw [Config.filter_collect h, Config.filter_collect h, lastDef_dropEarlier]

theorem paramFind_collect {type : SectionType} (h : Config.Loader.replaces type) (name : CString) :
    paramFind (collect type (dropEarlier (·.name = option) ds)) name = paramFind (collect type ds) name := by
  rw [paramFind_eq, paramFind_eq, filter_collect_dropEarlier h]

theorem foldl_congr_filter (atof : CString → Rat) (s : Jail.Settings) {ps qs : List Param}
    (h : ∀ name : CString, ps.filter (·.name = name) = qs.filter (·.name = name)) :
    ps.foldl (Jail.Settings.applyParam atof) s = qs.foldl (Jail.Settings.applyParam atof) s := by
  rw [Jail.Settings.eq_iff_fields atof (by simp only [Jail.Settings.configured_foldl])]
  intro f hf
  have ⟨k, hk⟩ := Jail.Settings.ofKey_of_fields f hf
  have hw : ∀ p : Param, ¬(decide (p.name = k.name)) = true → f.2.write p = none := fun p hp =>
    hk.other p (by simpa using hp)
  rw [f.2.get_foldl, f.2.get_foldl, ← f.2.lastWrite_filter hw ps, h, f.2.lastWrite_filter hw]

theorem single_createParam (sockCreate : CString → Option Conn.SockType) (ho : option ≠ "listen".toList) :
    Single (Csock.createParam sockCreate) (·.name = option) := by
  have hn : ∀ st (p : Param), p.name ≠ "listen".toList → Csock.createParam sockCreate st p =
      if p.name = "password".toList then ({ st.1 with password := p.value.strlcpy 32 }, st.2) else st :=
    fun _ _ h => if_neg h
  constructor
  case absorb =>
    intro st p p' hp hp'
    have he := of_decide_eq_true hp
    have he' := of_decide_eq_true hp'
    rw [hn _ p (he ▸ ho), hn _ p' (he' ▸ ho), hn _ p' (he' ▸ ho), he, he']
    split_ifs <;> rfl
  case comm =>
    intro st p p' hp hp'
    have he := of_decide_eq_true hp
    have hne : p'.name ≠ option := by simpa using hp'
    rw [hn _ p (he ▸ ho), hn _ p (he ▸ ho), he]
    by_cases hpass : option = "password".toList
    case neg => rw [if_neg hpass, if_neg hpass]
    case pos =>
      rw [if_pos hpass, if_pos hpass]
      by_cases hl : p'.name = "listen".toList
      case neg => rw [hn _ p' hl, hn _ p' hl, if_neg (hpass ▸ hne), if_neg (hpass ▸ hne)]
      case pos =>
        simp only [Csock.createParam, if_pos hl]
        split_ifs
        case pos => rfl
        case neg => cases sockCreate p'.value <;> rfl

theorem configure_dropEarlier (d : Module.Driver) (cfg : d.Cfg) (sec : Section) (ho : option ∉ d.repeatable) :
    d.configure cfg { sec with param := dropEarlier (·.name = option) sec.param } = d.configure cfg sec := by
  have hc : ∀ sec : Section, d.configure cfg sec =
      (sec.param.filter (·.name ≠ Module.LIBRARY_PARAM)).foldl (apply d.config) cfg := fun _ => rfl
  rw [hc, hc]
  by_cases hl : option = Module.LIBRARY_PARAM
  case pos =>
    rw [filter_dropEarlier]
    intro p hp hq
    exact of_decide_eq_true hp ((of_decide_eq_true hq).trans hl)
  case neg =>
    rw [← dropEarlier_filter, (d.single_config ho).foldl_dropEarlier]
    intro p hp
    exact decide_eq_true fun he => hl ((of_decide_eq_true hp).symm.trans he)

theorem library_iff :
    (paramFind ds Module.LIBRARY_PARAM).map (·.value) =
      (paramFind (dropEarlier (·.name = option) ds) Module.LIBRARY_PARAM).map (·.value) ↔
    (option = Module.LIBRARY_PARAM →
      (paramFind ds option).map (·.value) = (lastDef option ds).map (·.value)) := by
  by_cases hl : option = Module.LIBRARY_PARAM
  case pos =>
    subst hl
    have hd : paramFind (dropEarlier (·.name = Module.LIBRARY_PARAM) ds) Module.LIBRARY_PARAM =
        lastDef Module.LIBRARY_PARAM ds := by
      rw [paramFind_eq, filter_dropEarlier_self, lastDef, Option.head?_toList]
    rw [hd]
    exact ⟨fun h _ => h, fun h => h rfl⟩
  case neg =>
    refine iff_of_true ?_ fun h => absurd h hl
    rw [paramFind_eq, paramFind_eq, filter_dropEarlier]
    intro p hp hq
    exact hl ((of_decide_eq_true hq).symm.trans (of_decide_eq_true hp))

end Same

namespace Reader

variable {texts : List CString} {name option : CString} {sec : Section}

theorem seen_prefix (r : Reader) (texts : List CString) (id : Section.Id) :
    definitions (r.seen texts) id <+: definitions texts id := by
  cases r
  case includes =>
    have hp := Config.definitions_append (texts.take 1) (texts.drop 1) id
    rwa [List.take_append_drop] at hp
  all_goals exact List.prefix_refl _

theorem lastDef_defs (r : Reader) (option name : CString) (texts : List CString) :
    lastDef option (r.defs option name texts) = lastDef option (definitions texts (r.type, name)) := by
  have ⟨later, he⟩ := r.seen_prefix texts (r.type, name)
  simp only [defs, lastDef, ← he, List.drop_left, List.filter_append, List.filter_filter, Bool.and_self]

theorem defs_eq {r : Reader} (hs : r.seen texts = texts) :
    r.defs option name texts = definitions texts (r.type, name) := by
  rw [defs, hs, List.drop_length, List.filter_nil, List.append_nil]

-- The last definition takes effect in exactly the case that the library of a module is not given again as
-- another one, that the parts of the compound options of a jail are renewed, and that 'includes' is not given again
-- as another one behind the main file.
theorem lastWins_iff {r : Reader} (ho : option ∉ r.repeatable)
    (hs : ((r.seen texts).foldl Config.loadText Config.empty).find (r.type, name) = some sec) :
    r.LastWins option sec (r.defs option name texts) ↔
    r.Renewed option (definitions (r.seen texts) (r.type, name)) (definitions texts (r.type, name)) := by
  obtain rfl := Config.find_loaded hs
  have hl := lastDef_defs r option name texts
  have hd (h : r.seen texts = texts) : r.defs option name texts = definitions texts (r.type, name) := defs_eq h
  rw [LastWins]
  cases r
  case includes =>
    simp only [read, Renewed]
    rw [paramFind_collect rfl, paramFind_eq, paramFind_eq, Config.filter_collect rfl, Config.filter_collect rfl]
    simp only [Option.head?_toList]
    by_cases hi : option = "includes".toList
    case pos =>
      subst hi
      rw [hl]
      exact ⟨fun h _ => h, fun h => h rfl⟩
    case neg =>
      refine iff_of_true ?_ fun h => absurd h hi
      have hn : (((definitions texts (includes.type, name)).drop
          (definitions (includes.seen texts) (includes.type, name)).length).filter (·.name = option)).filter
          (·.name = "includes".toList) = [] := by
        simp only [List.filter_filter, List.filter_eq_nil_iff, Bool.and_eq_true, decide_eq_true_eq, not_and]
        exact fun p _ hp hp' => hi (hp'.symm.trans hp)
      rw [defs, lastDef, lastDef, List.filter_append, hn, List.append_nil]
  all_goals
    rw [hd rfl]
    simp only [seen]
    generalize definitions texts _ = ds
  case appconfig sys a =>
    refine iff_of_true ?_ trivial
    simp only [read, Appconfig.update]
    congr 1
    funext name
    rw [paramFind_collect rfl]
  case defaults atof s =>
    refine iff_of_true ?_ trivial
    exact foldl_congr_filter atof s fun name => (filter_collect_dropEarlier rfl name).symm
  case csocket sockCreate random =>
    refine iff_of_true ?_ trivial
    have hc : ∀ ds, collect .csocket ds = ds := fun ds => Config.collect_append rfl
    have hd := (single_createParam sockCreate (by simpa [repeatable] using ho)).foldl_dropEarlier ds
    simp only [read, Csock.create, type, hc, hd]
    rfl
  case jail atof s =>
    have hc : ∀ ds, collect .jail ds = ds := fun ds => Config.collect_append rfl
    simp only [read, Jail.Settings.applyConfig, type, hc]
    exact Jail.Settings.foldl_dropEarlier_iff s option ds
  case library kind =>
    have hc : ∀ ds, collect kind.sectionType ds = ds := fun ds => Config.collect_append (by cases kind <;> rfl)
    simp only [read, type, hc]
    exact library_iff
  case module d cfg =>
    have hc : ∀ ds, collect d.kind.sectionType ds = ds := fun ds =>
      Config.collect_append (by cases d.kind <;> rfl)
    refine iff_of_true ?_ trivial
    simp only [read, type, hc]
    exact (configure_dropEarlier d cfg ⟨name, d.kind.sectionType, ds⟩ ho).symm

end Reader

section Example

instance (kind : Module.Kind) : DecidableEq (Reader.library kind).Outcome :=
  inferInstanceAs (DecidableEq (Option CString))

instance (kind : Module.Kind) (option : CString) (sec : Section) (ds : List Param) :
    Decidable ((Reader.library kind).LastWins option sec ds) :=
  inferInstanceAs (Decidable ((_ : (Reader.library kind).Outcome) = _))

-- The jail of the main file is given another ban time in a second file.
def jailTwice : List CString := [
  "[jail:ssh]\nenabled = yes\nbantime = 60\n".toList,
  "[jail:ssh]\nbantime = 600\n".toList]

theorem lastWins_bantime :
    let r : Reader := .jail (fun _ => 0) .builtin
    ∃ sec, (jailTwice.foldl Config.loadText Config.empty).find (r.type, "ssh".toList) = some sec ∧
      r.LastWins "bantime".toList sec (r.defs "bantime".toList "ssh".toList jailTwice) := by
  intro r
  have hs : ((jailTwice.foldl Config.loadText Config.empty).find (r.type, "ssh".toList)).isSome := by decide
  refine ⟨_, (Option.some_get hs).symm, (Reader.lastWins_iff (by decide) (Option.some_get hs).symm).mpr ?_⟩
  intro k hk
  obtain rfl : k = .bantime := Jail.Settings.Key.name_injective hk
  exact List.forall_mem_nil _

-- The library of a module is given again, and the first one is opened.
def loadTwice : List CString :=
  ["[source:files]\nload = old.so\nload = new.so\n".toList]

theorem not_lastWins_load :
    let r : Reader := .library .source
    ∃ sec, (loadTwice.foldl Config.loadText Config.empty).find (r.type, "files".toList) = some sec ∧
      ¬r.LastWins "load".toList sec (r.defs "load".toList "files".toList loadTwice) := by
  intro r
  refine ⟨⟨"files".toList, .source, [⟨"load".toList, "old.so".toList⟩, ⟨"load".toList, "new.so".toList⟩]⟩,
    by decide, ?_⟩
  show ¬(Reader.library .source).LastWins _ _ _
  decide

end Example
end F2b
