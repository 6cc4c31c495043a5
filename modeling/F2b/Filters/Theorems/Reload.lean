import F2b.Filters.Theorems.Load
import Mathlib.Logic.Function.Iterate

-- Reloading the patterns of a filter.

namespace F2b.Filters

section Failure

variable {σ : Type} {m : Engine σ} {cfg : Cfg σ} {file : Option CString}

def Failed (m : Engine σ) (cfg : Cfg σ) (file : Option CString) : Prop :=
  (cmdReload m cfg file).1 = "-can't reload filter\n".toList

-- The patterns are the same as before, and so is what they match.
def Unharmed (lib : Library) (cfg : Cfg lib.Opts) (file : Option CString) : Prop :=
  let cfg' := (cmdReload lib.engine cfg file).2
  cfg'.regexps = cfg.regexps ∧
  ∀ bufSize line, lib.filter bufSize cfg'.regexps line = lib.filter bufSize cfg.regexps line

theorem failed_iff : Failed m cfg file ↔ (loadFile m (m.flush cfg) file).1 = 0 := by
  rw [Failed, cmdReload]
  obtain ⟨c, cfg⟩ := loadFile m (m.flush cfg) file
  by_cases hc : c > 0
  case pos => simp [hc, Nat.ne_of_gt hc]
  case neg => simp [Nat.eq_zero_of_not_pos hc]

theorem regexps_of_failed (h : Failed m cfg file) : (cmdReload m cfg file).2.regexps = [] := by
  have hl := length_regexps_loadFile cfg file (m := m)
  rw [failed_iff.mp h] at hl
  rw [cmdReload_snd]
  exact List.length_eq_zero_iff.mp hl.symm

theorem filter_nil (lib : Library) (bufSize : Nat) (line : CString) : lib.filter bufSize [] line = .ok none := by
  cases lib <;> rfl

-- A reload that fails leaves a filter without patterns.
theorem not_unharmed (lib : Library) {cfg : Cfg lib.Opts} (h : cfg.regexps ≠ []) (hf : Failed lib.engine cfg file) :
    ¬Unharmed lib cfg file ∧
    ∀ bufSize line, lib.filter bufSize (cmdReload lib.engine cfg file).2.regexps line = .ok none := by
  have hr := regexps_of_failed hf
  constructor
  case left  => exact fun ⟨he, _⟩ => h (he.symm.trans hr)
  case right =>
    intro bufSize line
    rw [hr, filter_nil]

def loaded : Cfg Preg where
  opts    := ⟨false, MATCH_DEFSCORE⟩
  regexps := [⟨"from <HOST>".toList, fnv32aStr "from <HOST>".toList FNV1_32A_INIT, MATCH_DEFSCORE, false⟩]
  ready   := true

theorem not_unharmed_loaded : ¬Unharmed (.preg (fun _ _ => true) fun _ _ _ => none) loaded none :=
  (not_unharmed (.preg _ _) (by simp [loaded]) (show Failed (pregEngine _) loaded none from rfl)).1

theorem not_always_unharmed :
    ¬∀ (lib : Library) (cfg : Cfg lib.Opts) file, cfg.regexps ≠ [] → Failed lib.engine cfg file →
      Unharmed lib cfg file := by
  intro h
  have hl : loaded.regexps ≠ [] := by simp [loaded]
  have ⟨hr, _⟩ := h (.preg (fun _ _ => true) fun _ _ _ => none) loaded none hl rfl
  exact hl hr.symm

end Failure

section Overwrites

variable {α σ : Type} {m : Engine σ} {get : σ → α} {o o' : σ} {ls : List Line}

-- Each line overwrites what `get` reads of the options, or leaves it.
def Overwrites (m : Engine σ) (get : σ → α) : Prop :=
  ∀ l, ∃ v : Option α, ∀ o, get (setOpts m o l) = v.getD (get o)

theorem Overwrites.optsAfter (h : Overwrites m get) (ls : List Line) :
    ∃ v : Option α, ∀ o, get (optsAfter m o ls) = v.getD (get o) := by
  induction ls
  case nil          => exact ⟨none, fun _ => rfl⟩
  case cons l ls hi =>
    have ⟨v, hv⟩ := h l
    have ⟨w, hw⟩ := hi
    refine ⟨w.or v, fun o => ?_⟩
    rw [Filters.optsAfter, List.foldl_cons]
    refine (hw _).trans ?_
    rw [hv]
    cases w <;> rfl

theorem Overwrites.again (h : Overwrites m get) (ho : get o' = get (Filters.optsAfter m o ls)) :
    get (Filters.optsAfter m o' ls) = get (Filters.optsAfter m o ls) := by
  have ⟨v, hv⟩ := h.optsAfter ls
  rw [hv, ho, hv]
  cases v <;> rfl

theorem Overwrites.congr (h : Overwrites m get) (ho : get o = get o') (l : Line) :
    get (setOpts m o l) = get (setOpts m o' l) := by
  have ⟨v, hv⟩ := h l
  rw [hv, hv, ho]

theorem Overwrites.eq_or_congr {a : α} (h : Overwrites m get) (ho : get o = a ∨ get o = get o') (l : Line) :
    get (setOpts m o l) = a ∨ get (setOpts m o l) = get (setOpts m o' l) := by
  have ⟨v, hv⟩ := h l
  rw [hv, hv]
  cases v
  case none   => exact ho
  case some b => exact .inr rfl

theorem Overwrites.eq_of_ne (h : Overwrites m get) {l : Line} (hn : get (setOpts m o l) ≠ get (setOpts m o' l)) :
    get (setOpts m o l) = get o := by
  have ⟨v, hv⟩ := h l
  rw [hv, hv] at hn
  cases v
  case none   => exact hv o
  case some b => exact absurd rfl hn

theorem overwrites_of_key {key : CString} {value : CString → α}
    (h : ∀ o k v, get (m.config o k v).2 = if k = key then value v else get o) : Overwrites m get
  | .pattern _ => ⟨none, fun _ => rfl⟩
  | .option p  => by
    by_cases hk : p.name = key
    case pos => exact ⟨some (value p.value), fun o => (h o p.name p.value).trans (if_pos hk)⟩
    case neg => exact ⟨none, fun o => (h o p.name p.value).trans (if_neg hk)⟩

end Overwrites

section Lawful

variable {σ : Type} {m : Engine σ} {o o' : σ}

-- Only the score is reset by a flush.
structure Lawful (m : Engine σ) : Prop where
  icase          : Overwrites m m.icase
  study          : Overwrites m m.study
  defscore       : Overwrites m m.defscore
  icase_reset    : ∀ o, m.icase (m.reset o) = m.icase o
  study_reset    : ∀ o, m.study (m.reset o) = m.study o
  defscore_reset : ∀ o, m.defscore (m.reset o) = MATCH_DEFSCORE

structure Alike (m : Engine σ) (o o' : σ) : Prop where
  icase    : m.icase o = m.icase o'
  study    : m.study o = m.study o'
  defscore : m.defscore o = m.defscore o'

theorem Alike.regexp (h : Alike m o o') (t : CString) : m.regexp o t = m.regexp o' t := by
  rw [Engine.regexp, Engine.regexp, h.icase, h.study, h.defscore]

theorem Alike.setOpts (h : Alike m o o') (hm : Lawful m) (l : Line) : Alike m (setOpts m o l) (setOpts m o' l) where
  icase    := hm.icase.congr h.icase l
  study    := hm.study.congr h.study l
  defscore := hm.defscore.congr h.defscore l

theorem Alike.loads (h : Alike m o o') (hm : Lawful m) (ls : List Line) : loads m o ls = loads m o' ls := by
  induction ls generalizing o o'
  case nil          => rfl
  case cons l ls hi =>
    have hl : loadLine m o l = loadLine m o' l := by
      cases l
      case option    => rfl
      case pattern t => exact h.regexp t
    rw [Filters.loads, Filters.loads, hl, hi (h.setOpts hm l)]

theorem Library.lawful : (lib : Library) → Lawful lib.engine
  | preg .. => {
      icase            := overwrites_of_key Preg.icase_config
      study _          := ⟨none, fun _ => rfl⟩
      defscore         := overwrites_of_key Preg.defscore_config
      icase_reset _    := rfl
      study_reset _    := rfl
      defscore_reset _ := rfl }
  | pcre jit .. => {
      icase            := overwrites_of_key (Pcre.icase_config jit)
      study            := overwrites_of_key (Pcre.study_config jit)
      defscore         := overwrites_of_key (Pcre.defscore_config jit)
      icase_reset _    := rfl
      study_reset _    := rfl
      defscore_reset _ := rfl }

end Lawful

section Compare

variable {σ : Type} {m : Engine σ} {o o' : σ} {st : Bool} {t : CString} {r r' : Regexp} {ls : List Line}

def Short (ls : List Line) : Prop :=
  ∀ t, .pattern t ∈ ls → t.length < PATTERN_MAX

def passes (m : Engine σ) (st : Bool) (r : Regexp) : Bool :=
  (m.expand r.pattern).any fun text => !st || m.learn text r.icase

-- Each text that can be used is one that can be used with both options, and with the same case flag.
def SameUse (m : Engine σ) (o o' : σ) (ls : List Line) : Prop :=
  ∀ pre t post, ls = pre ++ .pattern t :: post →
    Usable m (optsAfter m o pre) t ∨ Usable m (optsAfter m o' pre) t →
    m.icase (optsAfter m o pre) = m.icase (optsAfter m o' pre) ∧
    (Usable m (optsAfter m o pre) t ↔ Usable m (optsAfter m o' pre) t)

theorem Short.tail {l : Line} (h : Short (l :: ls)) : Short ls :=
  fun t ht => h t (List.mem_cons_of_mem _ ht)

theorem passes_of_regexp (ht : t.length < PATTERN_MAX) (h : m.regexp o t = some r) : passes m (m.study o) r := by
  obtain ⟨⟨text, he, _, hl⟩, rfl⟩ := regexp_eq_some_iff.mp h
  rw [passes, CString.strlcpy_of_lt ht, he]
  cases hs : m.study o <;> simp_all

-- A pattern that is loaded with one study flag and can be studied is loaded with the other, too.
theorem regexp_of_passes (ht : t.length < PATTERN_MAX) (hi : m.icase o = m.icase o')
    (hs : m.study o = st ∨ m.study o = m.study o') (h : m.regexp o' t = some r') (hp : passes m st r') :
    ∃ r, m.regexp o t = some r ∧ passes m st r := by
  obtain ⟨⟨text, he, hc, hl⟩, rfl⟩ := regexp_eq_some_iff.mp h
  simp only [passes, CString.strlcpy_of_lt ht, he, Option.any_some, Bool.or_eq_true, Bool.not_eq_true'] at hp
  refine ⟨_, regexp_eq_some_iff.mpr ⟨⟨text, he, hi ▸ hc, fun hm => ?_⟩, rfl⟩, ?_⟩
  case refine_1 =>
    obtain hs | hs := hs
    case inl => exact hi ▸ hp.resolve_left (by simp [← hs, hm])
    case inr => exact hi ▸ hl (hs ▸ hm)
  case refine_2 => simpa [passes, CString.strlcpy_of_lt ht, he, hi] using hp

-- With the same case flag, the study flag only takes patterns away that cannot be studied.
theorem countP_loads_le (hm : Lawful m) (hl : Short ls) (hi : m.icase o = m.icase o')
    (hs : m.study o = st ∨ m.study o = m.study o') :
    (loads m o' ls).countP (passes m st) ≤ (loads m o ls).countP (passes m st) := by
  induction ls generalizing o o'
  case nil          => exact Nat.le_refl _
  case cons l ls ih =>
    have hr := ih hl.tail (hm.icase.congr hi l) (hm.study.eq_or_congr hs l)
    rw [loads, loads, List.countP_append, List.countP_append]
    refine Nat.add_le_add ?_ hr
    cases l
    case option    => exact Nat.le_refl _
    case pattern t =>
      rw [loadLine, loadLine]
      cases h' : m.regexp o' t
      case none    => exact Nat.zero_le _
      case some r' =>
        cases hp : passes m st r'
        case false => simp [hp]
        case true  =>
          obtain ⟨r, hr, hp'⟩ := regexp_of_passes (hl t List.mem_cons_self) hi hs h' hp
          simp [hr, hp, hp']

-- With another case flag, nothing that is loaded stands first among what is loaded instead.
theorem loads_ne_cons (hm : Lawful m) (hl : Short ls) (hi : m.icase o ≠ m.icase o')
    (hs : m.study o = st ∨ m.study o = m.study o') (hr : r.icase = m.icase o) (hp : passes m st r)
    (rs : List Regexp) : loads m o' ls ≠ r :: (rs ++ loads m o ls) := by
  induction ls generalizing o o' rs
  case nil          => simp [loads]
  case cons l ls ih =>
    have hs' := hm.study.eq_or_congr hs l
    rw [loads, loads]
    cases l
    case option p  =>
      by_cases hi' : m.icase (setOpts m o (.option p)) = m.icase (setOpts m o' (.option p))
      case neg => exact ih hl.tail hi' hs' (hr.trans (hm.icase.eq_of_ne hi').symm) rs
      case pos =>
        -- From here on the case flags are the same, and `r` is one pattern too many.
        intro he
        have hc := countP_loads_le hm hl.tail hi' hs'
        rw [show loads m _ ls = _ from he, List.countP_cons_of_pos hp, List.countP_append] at hc
        simp only [loadLine, Option.toList_none, List.nil_append] at hc
        omega
    case pattern t =>
      rw [loadLine, loadLine]
      cases h' : m.regexp o' t
      case none    =>
        intro he
        refine ih hl.tail hi hs hr (rs ++ (m.regexp o t).toList) ?_
        rw [List.append_assoc]
        exact he
      case some r' =>
        intro he
        obtain ⟨rfl, _⟩ := List.cons.inj he
        have := (regexp_eq_some_iff.mp h').2
        exact hi (hr.symm.trans (by rw [this]))

-- The first pattern that is loaded from one of two lists only is missed in the other.
theorem loads_ne_cons_of_regexp (hm : Lawful m) (hl : Short ls) (ht : t.length < PATTERN_MAX)
    (h : m.regexp o t = some r) : loads m o' ls ≠ r :: loads m o ls := by
  have hp := passes_of_regexp ht h
  by_cases hi : m.icase o = m.icase o'
  case neg =>
    have hr : r.icase = m.icase o := by rw [(regexp_eq_some_iff.mp h).2]
    exact loads_ne_cons hm hl hi (.inl rfl) hr hp []
  case pos =>
    intro he
    have hc := countP_loads_le hm hl hi (.inl rfl)
    rw [he, List.countP_cons_of_pos hp] at hc
    exact Nat.not_succ_le_self _ hc

theorem sameUse_nil : SameUse m o o' [] := by
  intro pre t post h
  simp at h

theorem sameUse_cons {l : Line} :
    SameUse m o o' (l :: ls) ↔
    (∀ t, l = .pattern t → Usable m o t ∨ Usable m o' t →
      m.icase o = m.icase o' ∧ (Usable m o t ↔ Usable m o' t)) ∧
    SameUse m (setOpts m o l) (setOpts m o' l) ls := by
  constructor
  case mp  =>
    intro h
    refine ⟨fun t ht => ?_, fun pre t post he => ?_⟩
    case refine_1 => exact h [] t ls (ht ▸ rfl)
    case refine_2 => exact h (l :: pre) t post (he ▸ rfl)
  case mpr =>
    rintro ⟨h₁, h₂⟩ (_ | ⟨l', pre⟩) t post he
    case nil  => exact h₁ t (List.cons.inj he).1
    case cons =>
      obtain ⟨rfl, hs⟩ := List.cons.inj he
      exact h₂ pre t post hs

-- Two readings of the same lines, with the same score to start from, load the same patterns if and only
-- if they use each text in the same way.
theorem loads_eq_iff (hm : Lawful m) (hl : Short ls) (hd : m.defscore o = m.defscore o') :
    loads m o ls = loads m o' ls ↔ SameUse m o o' ls := by
  induction ls generalizing o o'
  case nil          => exact iff_of_true rfl sameUse_nil
  case cons l ls hi =>
    rw [sameUse_cons, ← hi hl.tail (hm.defscore.congr hd l), loads, loads]
    cases l
    case option p  => simp [loadLine]
    case pattern t =>
      have ht := hl t List.mem_cons_self
      simp only [loadLine, setOpts, Line.pattern.injEq, forall_eq']
      cases h : m.regexp o t <;> cases h' : m.regexp o' t
      case none.none    =>
        have hu := regexp_eq_none_iff.mp h
        have hu' := regexp_eq_none_iff.mp h'
        simp [hu, hu']
      case none.some r' =>
        have hu := regexp_eq_none_iff.mp h
        have hu' := (regexp_eq_some_iff.mp h').1
        refine iff_of_false (fun he => ?_) (by simp [hu, hu'])
        exact loads_ne_cons_of_regexp hm hl.tail ht h' he
      case some.none r  =>
        have hu := (regexp_eq_some_iff.mp h).1
        have hu' := regexp_eq_none_iff.mp h'
        refine iff_of_false (fun he => ?_) (by simp [hu, hu'])
        exact loads_ne_cons_of_regexp hm hl.tail ht h he.symm
      case some.some r r' =>
        obtain ⟨hu, hr⟩ := regexp_eq_some_iff.mp h
        obtain ⟨hu', hr'⟩ := regexp_eq_some_iff.mp h'
        have he : r = r' ↔ m.icase o = m.icase o' := by simp [hr, hr', hd]
        simp [hu, hu', he]

end Compare

section Repeat

variable {σ : Type} {m : Engine σ} {sec : Config.Section} {text : CString} {cfg : Cfg σ}

-- The options with which the first reading of the file starts, and those with which each later one does.
def firstOpts (m : Engine σ) (sec : Config.Section) : σ :=
  m.reset (sectionOpts m sec)

def laterOpts (m : Engine σ) (sec : Config.Section) (text : CString) : σ :=
  m.reset (optsAfter m (firstOpts m sec) (linesOf text))

def Idempotent (m : Engine σ) (cfg : Cfg σ) (file : Option CString) : Prop :=
  ∀ n, ((fun cfg => (cmdReload m cfg file).2)^[n] cfg).regexps = cfg.regexps

theorem alike_reload (hm : Lawful m) (h : Alike m (m.reset cfg.opts) (laterOpts m sec text)) :
    Alike m (m.reset (cmdReload m cfg (some text)).2.opts) (laterOpts m sec text) := by
  have hi := h.icase
  have hs := h.study
  rw [laterOpts, hm.icase_reset, hm.icase_reset] at hi
  rw [laterOpts, hm.study_reset, hm.study_reset] at hs
  rw [cmdReload_some]
  constructor
  case icase    =>
    rw [laterOpts, hm.icase_reset, hm.icase_reset]
    refine hm.icase.again ?_
    rw [hm.icase_reset, hm.icase_reset, hi]
  case study    =>
    rw [laterOpts, hm.study_reset, hm.study_reset]
    refine hm.study.again ?_
    rw [hm.study_reset, hm.study_reset, hs]
  case defscore => rw [laterOpts, hm.defscore_reset, hm.defscore_reset]

theorem alike_reloads (hm : Lawful m) (h : Alike m (m.reset cfg.opts) (laterOpts m sec text)) (n : Nat) :
    Alike m (m.reset ((fun cfg => (cmdReload m cfg (some text)).2)^[n] cfg).opts) (laterOpts m sec text) := by
  induction n generalizing cfg
  case zero      => exact h
  case succ n hi => exact hi (alike_reload hm h)

-- All reloads give the same patterns.
theorem regexps_reload (hm : Lawful m) (h : Alike m (m.reset cfg.opts) (laterOpts m sec text)) :
    (cmdReload m cfg (some text)).2.regexps = loads m (laterOpts m sec text) (linesOf text) := by
  have ha : Alike m (m.reset (m.reset cfg.opts)) (laterOpts m sec text) := {
    icase    := (hm.icase_reset _).trans h.icase
    study    := (hm.study_reset _).trans h.study
    defscore := by rw [laterOpts, hm.defscore_reset, hm.defscore_reset] }
  rw [cmdReload_some]
  exact ha.loads hm _

-- Reloads of an unchanged file change nothing if and only if each pattern of the file is used in the same
-- way with the options that the file leaves behind as with those of the section.
theorem idempotent_iff (lib : Library) {cfg : Cfg lib.Opts} (h : init lib.engine sec (some text) = some cfg) :
    Idempotent lib.engine cfg (some text) ↔
    SameUse lib.engine (firstOpts lib.engine sec) (laterOpts lib.engine sec text) (linesOf text) := by
  have hm := lib.lawful
  have ⟨text', ht, _, hc⟩ := init_eq_some_iff.mp h
  obtain rfl := Option.some.inj ht
  have ha : Alike lib.engine (lib.engine.reset cfg.opts) (laterOpts lib.engine sec text) := by
    rw [hc]
    exact ⟨rfl, rfl, rfl⟩
  have hd : lib.engine.defscore (firstOpts lib.engine sec) = lib.engine.defscore (laterOpts lib.engine sec text) := by
    rw [firstOpts, laterOpts, hm.defscore_reset, hm.defscore_reset]
  have hr : cfg.regexps = loads lib.engine (firstOpts lib.engine sec) (linesOf text) := by
    rw [hc]
    rfl
  rw [← loads_eq_iff hm (fun _ => length_lt_of_mem_linesOf) hd, ← hr, ← regexps_reload hm ha]
  constructor
  case mp  => exact fun h => (h 1).symm
  case mpr =>
    intro h n
    cases n
    case zero   => rfl
    case succ n =>
      rw [Function.iterate_succ_apply', regexps_reload hm (alike_reloads hm ha n), h, regexps_reload hm ha]

def inlineText : CString :=
  "from <HOST>\n# set: icase = yes\n".toList

def inlineFilter : Cfg Preg where
  opts    := ⟨true, MATCH_DEFSCORE⟩
  regexps := [⟨"from <HOST>".toList, fnv32aStr "from <HOST>".toList FNV1_32A_INIT, MATCH_DEFSCORE, false⟩]
  ready   := true

theorem init_inline :
    init (pregEngine fun _ _ => true) ⟨"preg".toList, .filter, []⟩ (some inlineText) = some inlineFilter :=
  rfl

theorem idempotent_iff_inline :
    Idempotent (pregEngine fun _ _ => true) inlineFilter (some inlineText) ↔
    SameUse (pregEngine fun _ _ => true) ⟨false, MATCH_DEFSCORE⟩ ⟨true, MATCH_DEFSCORE⟩ (linesOf inlineText) :=
  idempotent_iff (.preg (fun _ _ => true) fun _ _ _ => none) init_inline

theorem not_always_idempotent :
    ¬∀ (lib : Library) sec text (cfg : Cfg lib.Opts), init lib.engine sec (some text) = some cfg →
      Idempotent lib.engine cfg (some text) := by
  intro h
  have hr := h (.preg (fun _ _ => true) fun _ _ _ => none) _ _ _ init_inline 1
  have hi : [true] = [false] := congrArg (List.map Regexp.icase) hr
  simp at hi

end Repeat
end F2b.Filters
