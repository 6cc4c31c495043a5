import F2b.Filters.Filter
import F2b.Lib.Stdio
import Mathlib.Tactic.SplitIfs

-- What reading a pattern file does: the options it sets one after the other, and the patterns it loads.

namespace F2b

-- What the options of the modules set.
section Options

theorem Preg.icase_config (o : Preg) (k v : CString) :
    (o.config k v).2.icase = if k = "icase".toList then Config.yes v else o.icase := by
  rw [config]
  by_cases hk : k = "icase".toList
  case pos => rw [if_pos hk, if_pos hk]
  case neg => rw [if_neg hk, if_neg hk]; split_ifs <;> rfl

theorem Preg.defscore_config (o : Preg) (k v : CString) :
    (o.config k v).2.defscore = if k = "defscore".toList then toShort v.atoi else o.defscore := by
  rw [config]
  by_cases hk : k = "defscore".toList
  case pos => subst hk; rfl
  case neg => rw [if_neg hk, if_neg hk]; split_ifs <;> rfl

variable (jit : Bool)

theorem Pcre.icase_config (o : Pcre) (k v : CString) :
    (config jit o k v).2.icase = if k = "icase".toList then Config.yes v else o.icase := by
  rw [config]
  by_cases hk : k = "icase".toList
  case pos => rw [if_pos hk, if_pos hk]
  case neg => rw [if_neg hk, if_neg hk]; split_ifs <;> rfl

theorem Pcre.study_config (o : Pcre) (k v : CString) :
    (config jit o k v).2.study = if k = "study".toList then Config.yes v else o.study := by
  rw [config]
  by_cases hk : k = "study".toList
  case pos => subst hk; rfl
  case neg => rw [if_neg hk, if_neg hk]; split_ifs <;> rfl

theorem Pcre.defscore_config (o : Pcre) (k v : CString) :
    (config jit o k v).2.defscore = if k = "defscore".toList then toShort v.atoi else o.defscore := by
  rw [config]
  by_cases hk : k = "defscore".toList
  case pos => subst hk; rfl
  case neg => rw [if_neg hk, if_neg hk]; split_ifs <;> rfl

end Options

namespace Filters

variable {σ : Type} (m : Engine σ)

section Definitions

def setOpts (o : σ) : Line → σ
  | .option p  => (m.config o p.name p.value).2
  | .pattern _ => o

def loadLine (o : σ) : Line → Option Regexp
  | .option _  => none
  | .pattern t => m.regexp o t

def optsAfter (o : σ) (ls : List Line) : σ :=
  ls.foldl (setOpts m) o

def loads : σ → List Line → List Regexp
  | _, []      => []
  | o, l :: ls => (loadLine m o l).toList ++ loads (setOpts m o l) ls

def linesOf (text : CString) : List Line :=
  (CString.fgets REGEX_LINE_MAX text).filterMap classify

def sectionOpts (sec : Config.Section) : σ :=
  (sec.param.filter (·.name ≠ Module.LIBRARY_PARAM)).foldl (fun o p => (m.config o p.name p.value).2) m.create

def Usable (o : σ) (t : CString) : Prop :=
  ∃ text, m.expand t = some text ∧ m.compile text (m.icase o) ∧ (m.study o → m.learn text (m.icase o))

end Definitions

variable {m} {o o' : σ} {t : CString} {r : Regexp} {cfg : Cfg σ}

theorem regexp_eq_some_iff :
    m.regexp o t = some r ↔
    Usable m o t ∧ r = ⟨t.strlcpy PATTERN_MAX, fnv32aStr t FNV1_32A_INIT, m.defscore o, m.icase o⟩ := by
  rw [Engine.regexp, Usable]
  cases m.expand t
  case none      => simp
  case some text =>
    cases hc : m.compile text (m.icase o)
    case false => simp [hc]
    case true  =>
      cases hs : m.study o <;> cases hl : m.learn text (m.icase o) <;> simp [hc, hl, @eq_comm _ r]

theorem regexp_eq_none_iff : m.regexp o t = none ↔ ¬Usable m o t := by
  rw [Option.eq_none_iff_forall_ne_some]
  constructor
  case mp  =>
    intro h hu
    exact h _ (regexp_eq_some_iff.mpr ⟨hu, rfl⟩)
  case mpr =>
    intro h _ hr
    exact h (regexp_eq_some_iff.mp hr).1

theorem act_eq (n : Nat) (cfg : Cfg σ) (l : Line) :
    act m (n, cfg) l =
    (n + (loadLine m cfg.opts l).toList.length,
      { opts    := setOpts m cfg.opts l
        regexps := cfg.regexps ++ (loadLine m cfg.opts l).toList
        ready   := cfg.ready || (loadLine m cfg.opts l).isSome }) := by
  cases l
  case option p  => simp [act, setOpts, loadLine]
  case pattern t =>
    rw [act, Engine.append, loadLine]
    cases m.regexp cfg.opts t <;> simp [setOpts]

theorem foldl_act (n : Nat) (cfg : Cfg σ) (ls : List Line) :
    ls.foldl (act m) (n, cfg) =
    (n + (loads m cfg.opts ls).length,
      { opts    := optsAfter m cfg.opts ls
        regexps := cfg.regexps ++ loads m cfg.opts ls
        ready   := cfg.ready || !(loads m cfg.opts ls).isEmpty }) := by
  induction ls generalizing n cfg
  case nil          => simp [optsAfter, loads]
  case cons l ls hi =>
    rw [List.foldl_cons, act_eq, hi]
    cases hl : loadLine m cfg.opts l <;> simp [optsAfter, loads, hl, Nat.add_assoc, Nat.add_comm 1]

theorem foldl_readLine (lines : List CString) (st : Nat × Cfg σ) :
    lines.foldl (readLine m) st = (lines.filterMap classify).foldl (act m) st := by
  induction lines generalizing st
  case nil             => rfl
  case cons line ls hi =>
    rw [List.foldl_cons, hi, readLine, List.filterMap_cons]
    cases classify line <;> rfl

theorem loadFile_some (cfg : Cfg σ) (text : CString) :
    loadFile m cfg (some text) =
    ((loads m (m.reset cfg.opts) (linesOf text)).length,
      { opts    := optsAfter m (m.reset cfg.opts) (linesOf text)
        regexps := loads m (m.reset cfg.opts) (linesOf text)
        ready   := cfg.ready || !(loads m (m.reset cfg.opts) (linesOf text)).isEmpty }) := by
  rw [loadFile, foldl_readLine, foldl_act]
  simp [Engine.flush, linesOf]

theorem init_eq_some_iff {sec : Config.Section} {file : Option CString} :
    init m sec file = some cfg ↔
    ∃ text, file = some text ∧ loads m (m.reset (sectionOpts m sec)) (linesOf text) ≠ [] ∧
      cfg = {
        opts    := optsAfter m (m.reset (sectionOpts m sec)) (linesOf text)
        regexps := loads m (m.reset (sectionOpts m sec)) (linesOf text)
        ready   := true } := by
  cases file
  case none      => simp [init, loadFile]
  case some text =>
    rw [init, ← sectionOpts, loadFile_some]
    simp only [Option.some.injEq, exists_eq_left']
    cases loads m (m.reset (sectionOpts m sec)) (linesOf text)
    case nil  => simp
    case cons => simp [@eq_comm _ cfg]

theorem length_regexps_loadFile (cfg : Cfg σ) (file : Option CString) :
    (loadFile m (m.flush cfg) file).1 = (loadFile m (m.flush cfg) file).2.regexps.length := by
  cases file
  case none      => rfl
  case some text => rw [loadFile_some]

theorem cmdReload_snd (cfg : Cfg σ) (file : Option CString) :
    (cmdReload m cfg file).2 = (loadFile m (m.flush cfg) file).2 := by
  rw [cmdReload]
  obtain ⟨c, cfg⟩ := loadFile m (m.flush cfg) file
  exact apply_ite Prod.snd (c > 0) _ _ |>.trans (ite_self cfg)

theorem cmdReload_some (cfg : Cfg σ) (text : CString) :
    (cmdReload m cfg (some text)).2 = {
      opts    := optsAfter m (m.reset (m.reset cfg.opts)) (linesOf text)
      regexps := loads m (m.reset (m.reset cfg.opts)) (linesOf text)
      ready   := cfg.ready || !(loads m (m.reset (m.reset cfg.opts)) (linesOf text)).isEmpty } := by
  rw [cmdReload_snd, loadFile_some]
  rfl

section Length

variable {line : CString}

theorem length_stripSpaces_le (s : CString) : (Config.stripSpaces s).length ≤ s.length := by
  cases s
  case nil      => exact Nat.le_refl _
  case cons c s => exact Nat.succ_le_succ (List.IsPrefix.length_le (List.rdropWhile_prefix ..))

theorem length_stripLine_le (line : CString) : (stripLine line).length ≤ line.length := by
  have hp : (line.dropWhile CString.isblank).length ≤ line.length := (List.dropWhile_sublist _).length_le
  rw [stripLine]
  split
  case h_1 => exact hp
  case h_2 => exact hp
  case h_3 => exact (length_stripSpaces_le _).trans ((List.take_sublist ..).length_le.trans hp)

theorem eq_of_classify (h : classify line = some (.pattern t)) : t = stripLine line := by
  rw [classify] at h
  cases hs : stripLine line
  case nil      => simp [hs, lineOf] at h
  case cons c s =>
    rw [hs, lineOf] at h
    split_ifs at h
    case pos => split at h <;> simp at h
    case neg => exact (Line.pattern.inj (Option.some.inj h)).symm

-- A pattern fits the buffer of the line that it is read from.
theorem length_lt_of_mem_linesOf {text : CString} (h : .pattern t ∈ linesOf text) : t.length < PATTERN_MAX := by
  obtain ⟨line, hm, hc⟩ := List.mem_filterMap.mp h
  obtain ⟨chunk, hf, rfl⟩ := List.mem_map.mp hm
  have hl : chunk.length < REGEX_LINE_MAX :=
    CString.length_lt_of_mem_fgetsLoop (show 0 < REGEX_LINE_MAX - 1 by decide) (by decide) hf
  calc t.length
    _ = (stripLine (CString.ofBuffer chunk)).length := by rw [eq_of_classify hc]
    _ ≤ (CString.ofBuffer chunk).length := length_stripLine_le _
    _ ≤ chunk.length := (List.takeWhile_sublist _).length_le
    _ < PATTERN_MAX := hl

end Length
end Filters
end F2b
